import DoubleDecker.Broker.Requests

/-!
# Broker/Sends — what a step sends

For each command and each event, the commands a broker may send while it handles it (`Says`), and
the precise messages of a publication.
-/

namespace DoubleDecker

open Trie

variable {H : Type} [DecidableEq H] {env : Env H}

/-! ## The commands sent -/

omit [DecidableEq H] in
/-- **Only these commands are sent.** -/
def Outcome.Says {H : Type} (o : Outcome H) (cs : List Cmd) : Prop :=
  ∀ x ∈ o.sends, ∀ c, x.cmd = some c → c ∈ cs

omit [DecidableEq H] in
theorem says_nil_done (self : DdBroker H) (cs : List Cmd) : (Outcome.done self []).Says cs :=
  fun _ hx => absurd hx List.not_mem_nil

omit [DecidableEq H] in
theorem says_nil_fault (cs : List Cmd) : (Outcome.fault [] : Outcome H).Says cs :=
  fun _ hx => absurd hx List.not_mem_nil

omit [DecidableEq H] in
theorem Outcome.Says.mono {o : Outcome H} {cs cs' : List Cmd} (h : o.Says cs)
    (hsub : ∀ c ∈ cs, c ∈ cs') : o.Says cs' := fun x hx c hc => hsub c (h x hx c hc)

@[simp] theorem cmd_pubN (msg : List Frame) : (Send.pubN msg).cmd = none := rfl
@[simp] theorem cmd_pubS (msg : List Frame) : (Send.pubS msg).cmd = none := rfl
@[simp] theorem cmd_subN (msg : List Frame) : (Send.subN msg).cmd = none := rfl
@[simp] theorem cmd_subS (msg : List Frame) : (Send.subS msg).cmd = none := rfl

omit [DecidableEq H] in
theorem says_deliver (self : DdBroker H) (ln : LocalClient) (srcpublic dstpublic : Bool)
    (srcString : CStr) (msg : List Frame) :
    (deliver self ln srcpublic dstpublic srcString msg).Says [.data] := by
  unfold deliver
  split
  · simp [Outcome.Says, Outcome.sends, forwardLocally]
  · split
    · exact says_nil_fault _
    · simp [Outcome.Says, Outcome.sends, forwardLocally]

omit [DecidableEq H] in
theorem says_forwardUp (self self' : DdBroker H) (src dst : CStr) (msg : List Frame) :
    (Outcome.done self (forwardUp self' src dst msg)).Says [.forward] := by
  unfold forwardUp
  split
  · simp [Outcome.Says, Outcome.sends]
  · exact says_nil_done _ _

omit [DecidableEq H] in
theorem says_addCliUp (self : DdBroker H) (name : CStr) (dist : UInt32) :
    ∀ x ∈ addCliUp self name dist, x.cmd = some .adddcl := by
  unfold addCliUp
  split <;> simp

omit [DecidableEq H] in
theorem says_delCliUp (self : DdBroker H) (name : CStr) :
    ∀ x ∈ delCliUp self name, x.cmd = some .unregdcli := by
  unfold delCliUp
  split <;> simp

theorem says_send (self : DdBroker H) (sockid cookie : Frame) (msg : List Frame) :
    (sCbSend env self sockid cookie msg).Says [.data, .forward, .error] := by
  unfold sCbSend
  simp only
  split
  · exact says_nil_fault _
  · exact says_nil_done _ _
  · split
    · exact says_nil_fault _
    · split
      · exact (says_deliver _ _ _ _ _ _).mono (by simp)
      · split
        · simp [Outcome.Says, Outcome.sends, forwardDown]
        · split
          · split
            · simp [Outcome.Says, Outcome.sends, destInvalidRsock]
            · split
              · simp [Outcome.Says, Outcome.sends, destInvalidRsock]
              · exact says_nil_fault _
          · exact (says_forwardUp _ _ _ _ _).mono (by simp)

theorem says_forward_rsock (self : DdBroker H) (sockid cookie : Frame) (msg : List Frame) :
    (sCbForwardRsock env self sockid cookie msg).Says [.data, .forward, .error] := by
  unfold sCbForwardRsock
  split
  · exact says_nil_fault _
  · split
    · exact says_nil_fault _
    · exact says_nil_done _ _
    · simp only
      split
      · split
        · exact (says_deliver _ _ _ _ _ _).mono (by simp)
        · split
          · simp [Outcome.Says, Outcome.sends, forwardDown]
          · split
            · simp [Outcome.Says, Outcome.sends, destInvalidRsock]
            · exact (says_forwardUp _ _ _ _ _).mono (by simp)
      · exact says_nil_done _ _

theorem says_forward_dsock (self : DdBroker H) (msg : List Frame) :
    (sCbForwardDsock env self msg).Says [.data, .forward, .error] := by
  unfold sCbForwardDsock
  split
  · simp only
    split
    · exact (says_deliver _ _ _ _ _ _).mono (by simp)
    · split
      · simp [Outcome.Says, Outcome.sends, forwardDown]
      · split
        · exact says_nil_fault _
        · exact (says_forwardUp _ _ _ _ _).mono (by simp)
  · exact says_nil_done _ _

theorem says_ping (self : DdBroker H) (sockid cookie : Frame) :
    (sCbPing env self sockid cookie).Says [.pong] := by
  unfold sCbPing
  (repeat' split) <;> simp [Outcome.Says, Outcome.sends]

omit [DecidableEq H] in
theorem says_pubLocally (socks : Option (List Frame)) (name topic : CStr) (msg : List Frame) :
    ∀ x ∈ pubLocally socks name topic msg, x.cmd = some .pub := by
  simp [pubLocally]

/-! ## Publications -/

/-- **A publication sent on** to the higher or the lower brokers. -/
def Send.Relays (x : Send) (pubtopic name : CStr) (payload : List Frame) : Prop :=
  ∃ pathv, x = .pubN (pubtopic.bytes :: name.bytes :: pathv :: payload) ∨
    x = .pubS (pubtopic.bytes :: name.bytes :: pathv :: payload)

theorem Send.Relays.cmd {x : Send} {pubtopic name : CStr} {payload : List Frame}
    (h : x.Relays pubtopic name payload) : x.cmd = none := by
  obtain ⟨pathv, rfl | rfl⟩ := h <;> rfl

/-- A publication sent north, where there is a north. -/
theorem relays_north {p : Bool} {pubtopic name : CStr} {pathv : Frame} {payload : List Frame}
    {x : Send} (hx : x ∈ (if p then [Send.pubN (pubtopic.bytes :: name.bytes :: pathv :: payload)]
      else [])) : x.Relays pubtopic name payload := by
  split at hx
  · exact ⟨pathv, Or.inl (List.mem_singleton.mp hx)⟩
  · exact absurd hx List.not_mem_nil

/-- A publication sent south. -/
theorem relays_south {pubtopic name : CStr} {pathv : Frame} {payload : List Frame} {x : Send}
    (hx : x ∈ [Send.pubS (pubtopic.bytes :: name.bytes :: pathv :: payload)]) :
    x.Relays pubtopic name payload := ⟨pathv, Or.inr (List.mem_singleton.mp hx)⟩

/-- **The messages of `s_cb_pub`** — those to the publication sockets and those to the subscribers
of the composed topic. -/
theorem sCbPub_sends {self : DdBroker H} {sockid cookie : Frame} {msg : List Frame} {x : Send}
    (hx : x ∈ (sCbPub env self sockid cookie msg).sends) :
    ∃ ln topicFrame rest topic pubtopic name, msg = topicFrame :: rest ∧
      CStr.ofBytes topicFrame ≠ ∅ ∧ hashtableHasLocalNode env self sockid cookie = some (some ln) ∧
      composeTopic self ln (CStr.ofBytes topicFrame) = (topic, pubtopic, name) ∧
      (x.Relays pubtopic name (zmsgPop rest).2 ∨
        ∃ socks, nnTrieTree self.topicsTrie pubtopic.bytes = some socks ∧
          x ∈ pubLocally socks name topic (zmsgPop rest).2) := by
  unfold sCbPub at hx
  simp only at hx
  split at hx
  · exact absurd hx List.not_mem_nil
  · exact absurd hx List.not_mem_nil
  · next ln hln =>
    cases msg with
    | nil => exact absurd hx List.not_mem_nil
    | cons topicFrame rest =>
      simp only [zmsgPopstr] at hx
      split at hx
      · exact absurd hx List.not_mem_nil
      · next hne =>
        refine ⟨ln, topicFrame, rest, _, _, _, rfl, fun h => hne (by rw [h]; rfl), hln, rfl, ?_⟩
        split at hx
        · exact absurd hx List.not_mem_nil
        · split at hx
          · exact Or.inl ((List.mem_append.mp hx).elim relays_north relays_south)
          · next socks hsocks =>
            rcases List.mem_append.mp hx with hx | hx
            · exact Or.inl ((List.mem_append.mp hx).elim relays_north relays_south)
            · exact Or.inr ⟨socks, hsocks, hx⟩

omit [DecidableEq H] in
/-- The messages of `pub_remotely` go to the subscribers of the topic. -/
theorem pubRemotely_sends {self : DdBroker H} {pubtopic name : CStr} {msg : List Frame} {x : Send}
    (hx : x ∈ (pubRemotely self pubtopic name msg).sends) :
    ∃ socks topic, nnTrieTree self.topicsTrie pubtopic.bytes = some socks ∧
      x ∈ pubLocally socks name topic msg := by
  unfold pubRemotely at hx
  split at hx
  · exact absurd hx List.not_mem_nil
  · exact absurd hx List.not_mem_nil
  · next socks hsocks =>
    split at hx
    · exact absurd hx List.not_mem_nil
    · next topic htopic =>
      refine ⟨some socks, topic.before slash, hsocks, ?_⟩
      simp only at hx
      split at hx <;> exact hx

omit [DecidableEq H] in
/-- One handler and then what holds of the messages of the next. -/
theorem mem_andThen {P : Send → Prop} {o : Outcome H} {f : DdBroker H → Outcome H} {x : Send}
    (hx : x ∈ (o.andThen f).sends) (hf : ∀ self, ∀ y ∈ (f self).sends, P y) :
    P x ∨ x ∈ o.sends := by
  cases o with
  | fault sends => exact Or.inr hx
  | done self sends =>
    rw [Outcome.done_andThen, Outcome.sends_after] at hx
    exact (List.mem_append.mp hx).symm.imp_left (hf self x)

/-- The two strings at the head of a publication. -/
theorem zmsgPopstr_eq_some {msg : List Frame} {pubtopic name : CStr}
    (h : (zmsgPopstr msg).1 = some pubtopic)
    (h' : (zmsgPopstr (zmsgPopstr msg).2).1 = some name) :
    ∃ topicFrame nameFrame rest, msg = topicFrame :: nameFrame :: rest ∧
      pubtopic = CStr.ofBytes topicFrame ∧ name = CStr.ofBytes nameFrame := by
  rcases msg with _ | ⟨f, _ | ⟨g, rest⟩⟩
  · cases h
  · cases h'
  · cases h
    cases h'
    exact ⟨f, g, rest, rfl, rfl, rfl⟩

omit [DecidableEq H] in
/-- The messages of `s_on_subN_msg`. -/
theorem sOnSubNMsg_sends {self : DdBroker H} {msg : List Frame} {x : Send}
    (hx : x ∈ (sOnSubNMsg self msg).sends) :
    ∃ topicFrame nameFrame rest, msg = topicFrame :: nameFrame :: rest ∧
      (x.Relays (CStr.ofBytes topicFrame) (CStr.ofBytes nameFrame) (zmsgPop rest).2 ∨
        ∃ socks topic, nnTrieTree self.topicsTrie (CStr.ofBytes topicFrame).bytes = some socks ∧
          x ∈ pubLocally socks (CStr.ofBytes nameFrame) topic (zmsgPop rest).2) := by
  unfold sOnSubNMsg at hx
  simp only at hx
  split at hx
  · exact absurd hx List.not_mem_nil
  · split at hx
    · next pubtopic name hpub hname =>
      obtain ⟨topicFrame, nameFrame, rest, rfl, rfl, rfl⟩ := zmsgPopstr_eq_some hpub hname
      refine ⟨topicFrame, nameFrame, rest, rfl, ?_⟩
      exact (mem_andThen (P := fun y => y.Relays _ _ _) hx fun b y hy => relays_south hy).imp_right
        pubRemotely_sends
    · exact absurd hx List.not_mem_nil

omit [DecidableEq H] in
/-- The messages of `s_on_subS_msg`. -/
theorem sOnSubSMsg_sends {self : DdBroker H} {msg : List Frame} {x : Send}
    (hx : x ∈ (sOnSubSMsg self msg).sends) :
    ∃ topicFrame nameFrame rest, msg = topicFrame :: nameFrame :: rest ∧
      (x.Relays (CStr.ofBytes topicFrame) (CStr.ofBytes nameFrame) (zmsgPop rest).2 ∨
        ∃ socks topic, nnTrieTree self.topicsTrie (CStr.ofBytes topicFrame).bytes = some socks ∧
          x ∈ pubLocally socks (CStr.ofBytes nameFrame) topic (zmsgPop rest).2) := by
  unfold sOnSubSMsg at hx
  simp only at hx
  split at hx
  · next pubtopic name hpub hname =>
    obtain ⟨topicFrame, nameFrame, rest, rfl, rfl, rfl⟩ := zmsgPopstr_eq_some hpub hname
    refine ⟨topicFrame, nameFrame, rest, rfl, ?_⟩
    refine (mem_andThen (P := fun y => y.Relays _ _ _) hx fun b y hy => ?_).imp_right
      pubRemotely_sends
    split at hy
    · exact absurd hy List.not_mem_nil
    · split at hy
      · exact relays_north hy
      · exact (List.mem_append.mp hy).elim relays_north relays_south
  · exact absurd hx List.not_mem_nil

theorem says_sub (self : DdBroker H) (sockid cookie : Frame) (msg : List Frame) :
    (sCbSub env self sockid cookie msg).Says [.subok] := by
  unfold sCbSub tellSubs
  simp only
  (repeat' split) <;> simp [Outcome.Says, Outcome.sends]

theorem says_unsub (self : DdBroker H) (sockid cookie : Frame) (msg : List Frame) :
    (sCbUnsub env self sockid cookie msg).Says [] := by
  unfold sCbUnsub tellSubs
  simp only
  (repeat' split) <;> simp [Outcome.Says, Outcome.sends]

theorem says_unreg (self : DdBroker H) (sockid cookie : Frame) :
    (sCbUnregCli env self sockid cookie).Says [.unregdcli] := by
  unfold sCbUnregCli
  split
  · exact says_nil_fault _
  · exact says_nil_done _ _
  · split
    · exact fun x hx c hc => by rw [says_delCliUp _ _ x hx] at hc; cases hc; simp
    · exact fun x hx c hc => by rw [says_delCliUp _ _ x hx] at hc; cases hc; simp

theorem says_unregdcli (self : DdBroker H) (sockid cookie : Frame) (msg : List Frame) :
    (sCbUnregDistCli env self sockid cookie msg).Says [.unregdcli] := by
  unfold sCbUnregDistCli
  split
  · exact says_nil_fault _
  · split
    · exact says_nil_fault _
    · exact says_nil_done _ _
    · split
      · exact says_nil_fault _
      · split
        · exact fun x hx c hc => by rw [says_delCliUp _ _ x hx] at hc; cases hc; simp
        · exact says_nil_done _ _

theorem says_adddcl (self : DdBroker H) (sockid cookie : Frame) (msg : List Frame) :
    (sCbAdddcl env self sockid cookie msg).Says [.error, .adddcl] := by
  unfold sCbAdddcl
  split
  · exact says_nil_fault _
  · split
    · exact says_nil_fault _
    · exact says_nil_done _ _
    · split
      · exact says_nil_fault _
      · split
        · exact says_nil_fault _
        · split
          · simp [Outcome.Says, Outcome.sends, remoteRegFailed]
          · split
            · simp [Outcome.Says, Outcome.sends, remoteRegFailed]
            · split
              · exact says_nil_fault _
              · exact fun x hx c hc => by rw [says_addCliUp _ _ _ x hx] at hc; cases hc; simp

omit [DecidableEq H] in
theorem says_addlcl (self : DdBroker H) (sockid : Frame) (msg : List Frame) :
    (sCbAddlcl env self sockid msg).Says [.chall, .error] := by
  unfold sCbAddlcl
  simp only
  (repeat' split) <;> simp [Outcome.Says, Outcome.sends]

omit [DecidableEq H] in
theorem says_addbr (self : DdBroker H) (sockid : Frame) (msg : List Frame) :
    (sCbAddbr env self sockid msg).Says [.chall] := by
  unfold sCbAddbr
  simp only
  (repeat' split) <;> simp [Outcome.Says, Outcome.sends]

theorem says_register (self : DdBroker H) (sockid : Frame) (ten : DdTenant) (clientName : CStr) :
    (registerClient env self sockid ten clientName).Says [.regok, .error, .adddcl] := by
  unfold registerClient
  split
  · exact says_nil_fault _
  · simp [Outcome.Says, Outcome.sends, remoteRegFailed]
  · intro x hx c hc
    rcases List.mem_cons.mp hx with rfl | hx
    · rw [cmd_rsock] at hc; cases hc; simp
    · split at hx
      · rw [says_addCliUp _ _ _ x hx] at hc; cases hc; simp
      · exact absurd hx List.not_mem_nil

theorem says_challok (self : DdBroker H) (sockid : Frame) (msg : List Frame) :
    (sCbChallok env self sockid msg).Says [.regok, .error, .adddcl] := by
  unfold sCbChallok
  split
  · exact says_nil_fault _
  · simp only
    split
    · (repeat' split) <;> simp [Outcome.Says, Outcome.sends]
    · split
      · exact says_nil_done _ _
      · split
        · exact says_nil_fault _
        · split
          · exact says_nil_done _ _
          · split
            · exact says_nil_done _ _
            · exact says_register _ _ _ _
  · exact says_nil_done _ _

/-- The commands a router command may lead to. -/
def Cmd.answers : Cmd → List Cmd
  | .send | .forward => [.data, .forward, .error]
  | .ping => [.pong]
  | .pub => [.pub]
  | .sub => [.subok]
  | .unreg | .unregdcli => [.unregdcli]
  | .adddcl => [.error, .adddcl]
  | .addlcl => [.chall, .error]
  | .addbr => [.chall]
  | .challok => [.regok, .error, .adddcl]
  | _ => []

theorem says_pub (self : DdBroker H) (sockid cookie : Frame) (msg : List Frame) :
    (sCbPub env self sockid cookie msg).Says [.pub] := by
  intro x hx c hc
  obtain ⟨_, _, _, _, _, _, -, -, -, -, hrelay | ⟨_, -, hx⟩⟩ := sCbPub_sends hx
  · rw [hrelay.cmd] at hc
    cases hc
  · rw [says_pubLocally _ _ _ _ x hx] at hc
    cases hc
    simp

theorem says_router (self : DdBroker H) (source : Frame) (cmd : Cmd) (msg : List Frame) :
    (onRouterCmd env self source cmd msg).Says cmd.answers := by
  cases cmd with
  | challok => exact says_challok self source msg
  | addlcl =>
    have h := @says_addlcl _ env self source msg
    cases msg <;> exact h
  | addbr =>
    have h := @says_addbr _ env self source msg
    cases msg <;> exact h
  | send =>
    cases msg with
    | nil => exact says_nil_done _ _
    | cons k msg => exact says_send self source k msg
  | forward =>
    cases msg with
    | nil => exact says_nil_done _ _
    | cons k msg => exact says_forward_rsock self source k msg
  | ping =>
    cases msg with
    | nil => exact says_nil_done _ _
    | cons k msg => exact says_ping self source k
  | pub =>
    cases msg with
    | nil => exact says_nil_done _ _
    | cons k msg => exact says_pub self source k msg
  | sub =>
    cases msg with
    | nil => exact says_nil_done _ _
    | cons k msg => exact says_sub self source k msg
  | unsub =>
    cases msg with
    | nil => exact says_nil_done _ _
    | cons k msg => exact says_unsub self source k msg
  | unreg =>
    cases msg with
    | nil => exact says_nil_done _ _
    | cons k msg => exact says_unreg self source k
  | adddcl =>
    cases msg with
    | nil => exact says_nil_done _ _
    | cons k msg => exact says_adddcl self source k msg
  | unregdcli =>
    cases msg with
    | nil => exact says_nil_done _ _
    | cons k msg => exact says_unregdcli self source k msg
  | unregbr | data | error | regok | pong | chall | subok => cases msg <;> exact says_nil_done _ _

/-! ## Messages from the higher broker and timers -/

theorem says_high_error (self : DdBroker H) (msg : List Frame) :
    (sCbHighError env self msg).Says [.error] := by
  unfold sCbHighError
  simp only
  (repeat' split) <;>
    simp [Outcome.Says, Outcome.sends, destInvalidRsock, remoteRegFailed]

omit [DecidableEq H] in
theorem says_regok (self : DdBroker H) (msg : List Frame) :
    (sCbRegok self msg).Says [.adddcl] := by
  intro x hx c hc
  rcases List.mem_append.mp hx with hx | hx
  · obtain ⟨np, -, hx⟩ := List.mem_flatMap.mp hx
    rw [says_addCliUp _ _ _ x hx] at hc
    cases hc
    simp
  · obtain ⟨nd, -, hx⟩ := List.mem_flatMap.mp hx
    rw [says_addCliUp _ _ _ x hx] at hc
    cases hc
    simp

omit [DecidableEq H] in
theorem says_chall (self : DdBroker H) (msg : List Frame) :
    (sCbChall env self msg).Says [.challok] := by
  unfold sCbChall
  simp only
  (repeat' split) <;> simp [Outcome.Says, Outcome.sends]

theorem says_checkClients (l : List LocalClient) (self : DdBroker H) :
    (checkClients env l self).Says [.unregdcli] := by
  induction l generalizing self with
  | nil => exact says_nil_done _ _
  | cons np rest ih =>
    rw [checkClients]
    split
    · exact ih _
    · have hu := @says_unreg _ _ env self np.sockid np.cookie.1
      cases h : sCbUnregCli env self np.sockid np.cookie.1 with
      | fault sends =>
        rw [h] at hu
        exact hu
      | done self' sends =>
        rw [h] at hu
        intro x hx c hc
        rw [Outcome.done_andThen, Outcome.sends_after] at hx
        exact (List.mem_append.mp hx).elim (hu x · c hc) (ih self' x · c hc)

omit [DecidableEq H] in
theorem says_checkBrokers (l : List LocalBroker) (self : DdBroker H) :
    (checkBrokers l self).Says [.unregdcli] := by
  induction l generalizing self with
  | nil => exact says_nil_done _ _
  | cons np rest ih =>
    rw [checkBrokers]
    split
    · exact ih _
    · intro x hx c hc
      rw [deleteDistClients, Outcome.done_andThen, Outcome.sends_after] at hx
      obtain hx | hx := List.mem_append.mp hx
      · obtain ⟨mp, -, hx⟩ := List.mem_flatMap.mp hx
        rw [says_delCliUp _ _ x hx] at hc
        cases hc
        simp
      · exact ih _ x hx c hc

/-- The commands a dealer command may lead to. -/
def Cmd.dealerAnswers : Cmd → List Cmd
  | .regok => [.adddcl]
  | .forward => [.data, .forward, .error]
  | .chall => [.challok]
  | .error => [.error]
  | _ => []

theorem says_dealer (self : DdBroker H) (cmd : Cmd) (msg : List Frame) :
    (onDealerCmd env self cmd msg).Says cmd.dealerAnswers := by
  cases cmd with
  | regok => exact says_regok self msg
  | forward => exact says_forward_dsock self msg
  | chall => exact says_chall self msg
  | error => exact says_high_error self msg
  | send | ping | addlcl | adddcl | addbr | unreg | unregdcli | unregbr | data | pong | challok
  | pub | sub | unsub | subok => exact says_nil_done _ _

/-- The commands an event may lead to. -/
def Event.answers : Event → List Cmd
  | .router msg => .error :: (routerCmd msg).elim [] fun p => p.2.1.answers
  | .dealer msg => (dealerCmd msg).elim [] fun p => p.1.dealerAnswers
  | .subN _ | .subS _ => [.pub]
  | .pubN _ | .pubS _ => []
  | .register => [.addbr]
  | .heartbeat => [.ping]
  | .checkCliTimeout | .checkBrTimeout => [.unregdcli]

/-- **What a step may send.** -/
theorem says_step (self : DdBroker H) (e : Event) : (step env self e).Says e.answers := by
  cases e with
  | router msg =>
    rcases sOnRouterMsg_eq env self msg with ⟨s, cmd, rest, hm, heq⟩ | ⟨hm, heq | ⟨sends, heq, hs⟩⟩
    · rw [step, heq]
      exact (says_router self s cmd rest).mono fun c hc => by simp [Event.answers, hm, hc]
    · rw [step, heq]
      exact says_nil_fault _
    · rw [step, heq]
      intro x hx c hc
      rw [hs x hx] at hc
      cases hc
      exact List.mem_cons_self
  | dealer msg =>
    rcases sOnDealerMsg_eq env self msg with ⟨cmd, rest, hm, heq⟩ | ⟨hm, heq | heq⟩
    · rw [step, heq, Event.answers, hm]
      exact says_dealer _ cmd rest
    · rw [step, heq]
      exact says_nil_fault _
    · rw [step, heq]
      exact says_nil_done _ _
  | subN msg =>
    intro x hx c hc
    obtain ⟨_, _, _, -, hrelay | ⟨_, _, -, hx⟩⟩ := sOnSubNMsg_sends hx
    · rw [hrelay.cmd] at hc
      cases hc
    · rw [says_pubLocally _ _ _ _ x hx] at hc
      cases hc
      exact List.mem_cons_self
  | subS msg =>
    intro x hx c hc
    obtain ⟨_, _, _, -, hrelay | ⟨_, _, -, hx⟩⟩ := sOnSubSMsg_sends hx
    · rw [hrelay.cmd] at hc
      cases hc
    · rw [says_pubLocally _ _ _ _ x hx] at hc
      cases hc
      exact List.mem_cons_self
  | pubN msg =>
    rw [step, sOnPubNMsg]
    (repeat' split) <;> simp [Outcome.Says, Outcome.sends]
  | pubS msg =>
    rw [step, sOnPubSMsg]
    (repeat' split) <;> simp [Outcome.Says, Outcome.sends]
  | register =>
    rw [step, sRegister]
    split <;> simp [Outcome.Says, Outcome.sends, Event.answers]
  | heartbeat => simp [step, sHeartbeat, Outcome.Says, Outcome.sends, Event.answers]
  | checkCliTimeout => exact says_checkClients _ _
  | checkBrTimeout => exact says_checkBrokers _ _

end DoubleDecker
