import DoubleDecker.Broker.Distant
import DoubleDecker.Broker.Links
import DoubleDecker.Library.Watchdog

/-!
# Broker/Lapses — brokers that fall silent

Two counters watch a link between brokers.  The higher broker counts the ticks of
`s_check_br_timeout` since it last accepted a `PING` or a `FORWARD` of the lower one; the lower
broker counts its heartbeats since anything came over its dealer socket.  Both are a `Watchdog`
(`brokerWatch`, `linkWatch`), so that the entry goes, and the registration ends, at the fourth tick
and at no other step (`lower_broker_expires`, `registration_lapses`).  A second `REGOK` starts a
second heartbeat, which goes on when the broker has given up.
-/

namespace DoubleDecker

variable {H : Type} [DecidableEq H] {env : Env H} {b b' : DdBroker H} {e : Event}
  {sends : List Send}

/-! ## What leaves the counters -/

/-- **Two brokers with the same counters** — of their own link and of the lower brokers. -/
structure SameCounters {H : Type} (a b : DdBroker H) : Prop where
  timeout : b.timeout = a.timeout
  brTimeout : b.brTimeout = a.brTimeout
  lclBrHt : b.lclBrHt = a.lclBrHt

omit [DecidableEq H] in
theorem SameCounters.refl (a : DdBroker H) : SameCounters a a := ⟨rfl, rfl, rfl⟩

omit [DecidableEq H] in
theorem SameCounters.trans {a b c : DdBroker H} (h : SameCounters a b) (h' : SameCounters b c) :
    SameCounters a c :=
  ⟨h'.timeout.trans h.timeout, h'.brTimeout.trans h.brTimeout, h'.lclBrHt.trans h.lclBrHt⟩

omit [DecidableEq H] in
theorem sameCounters_touch (a : DdBroker H) (c : LocalClient) : SameCounters a (a.touch c) :=
  ⟨rfl, rfl, rfl⟩

/-- The outcome, when it is a state, has the counters of this broker. -/
def Outcome.Counts {H : Type} (o : Outcome H) (b : DdBroker H) : Prop :=
  ∀ b' sends, o = .done b' sends → SameCounters b b'

omit [DecidableEq H] in
theorem counts_fault (b : DdBroker H) (sends : List Send) :
    (Outcome.fault sends : Outcome H).Counts b := fun _ _ h => by cases h

omit [DecidableEq H] in
theorem counts_done (h : SameCounters b b') (sends : List Send) :
    (Outcome.done b' sends).Counts b := fun _ _ h' => by
  cases h'
  exact h

theorem removeSubscriptions_counters {s : Frame} {n : Nat}
    (h : removeSubscriptions env b s = some (b', n)) : SameCounters b b' := by
  obtain rfl | ⟨root, rfl⟩ := removeSubscriptions_eq h <;> exact ⟨rfl, rfl, rfl⟩

theorem removeSubscription_counters {s : Frame} {t : CStr} {n : Nat}
    (h : removeSubscription env b s t = some (b', n)) : SameCounters b b' := by
  obtain rfl | ⟨root, rfl⟩ := removeSubscription_eq h <;> exact ⟨rfl, rfl, rfl⟩

omit [DecidableEq H] in
theorem counts_deliver (h : SameCounters b b') (ln : LocalClient) (srcpublic dstpublic : Bool)
    (src : CStr) (msg : List Frame) : (deliver b' ln srcpublic dstpublic src msg).Counts b := by
  unfold deliver
  (repeat' split) <;> first
    | exact counts_fault _ _
    | exact counts_done h _

theorem counts_carry (h : SameCounters b b') (srcpublic dstpublic : Bool) (src dst : CStr)
    (payload : List Frame) {nodst : Outcome H} (hnodst : nodst.Counts b) :
    (carry env b' srcpublic dstpublic src dst payload nodst).Counts b := by
  unfold carry
  split
  · exact counts_deliver h _ _ _ _ _
  · split
    · exact counts_done h _
    · split
      · exact hnodst
      · exact counts_done h _

theorem counts_unregCli (b : DdBroker H) (s cookie : Frame) :
    (sCbUnregCli env b s cookie).Counts b := by
  intro b' sends h
  obtain ⟨-, rfl, -⟩ | ⟨c, -, hr, -⟩ := sCbUnregCli_eq_done h
  · exact .refl _
  · obtain ⟨⟨b₁, n⟩, hb, rfl⟩ := Option.map_eq_some_iff.mp hr
    exact (removeSubscriptions_counters hb).trans ⟨rfl, rfl, rfl⟩

/-! ## Messages of lower brokers -/

variable (env) in
/-- The registered broker a command comes from. -/
def brokerFor (b : DdBroker H) (sockid cookieFrame : Frame) : Option LocalBroker :=
  (readCookie cookieFrame).bind fun cookie => (hashtableHasLocalBroker env b sockid cookie).join

variable (env) in
/-- The broker whose `FORWARD` or `PING` is accepted, or that is registered. -/
def heardOf (b : DdBroker H) : Event → Option LocalBroker
  | .router msg =>
    match routerCmd msg with
    | some (source, .forward, cookie :: _) => brokerFor env b source cookie
    | some (source, .ping, cookie :: _) =>
      if (acceptedFor env b source cookie).isSome then none else brokerFor env b source cookie
    | some (source, .challok, msg) =>
      match challokRequest b source msg with
      | .addBroker sockid cookie =>
        if (hashtableHasLocalBroker env b sockid cookie).join.isSome then none
        else some ⟨sockid, cookie⟩
      | _ => none
    | _ => none
  | _ => none

/-- The counters after a message of the broker found, if any. -/
def DdBroker.heard {H : Type} (b : DdBroker H) : Option LocalBroker → DdBroker H
  | none => b
  | some br => b.touchBroker br

theorem counts_forward (b : DdBroker H) (source cookie : Frame) (msg : List Frame) :
    (sCbForwardRsock env b source cookie msg).Counts (b.heard (brokerFor env b source cookie)) := by
  cases hcook : readCookie cookie with
  | none =>
    simp only [sCbForwardRsock, hcook]
    exact counts_fault _ _
  | some cook =>
    cases hbr : hashtableHasLocalBroker env b source cook with
    | none =>
      simp only [sCbForwardRsock, hcook, hbr]
      exact counts_fault _ _
    | some o =>
      have hfor : brokerFor env b source cookie = o := by
        rw [brokerFor, hcook, Option.bind_some, hbr, Option.join_some]
      rw [hfor]
      cases o with
      | none =>
        simp only [sCbForwardRsock, hcook, hbr]
        exact counts_done (.refl _) _
      | some np =>
        simp only [sCbForwardRsock, hcook, hbr]
        split
        · exact counts_carry (.refl _) _ _ _ _ _ (counts_done (.refl _) _)
        · exact counts_done (.refl _) _

theorem counts_ping (b : DdBroker H) (source cookie : Frame) :
    (sCbPing env b source cookie).Counts (b.heard
      (if (acceptedFor env b source cookie).isSome then none
        else brokerFor env b source cookie)) := by
  cases hln : hashtableHasLocalNode env b source cookie with
  | none =>
    simp only [sCbPing, hln]
    exact counts_fault _ _
  | some o =>
    have haccepted : acceptedFor env b source cookie = o := by
      rw [acceptedFor, hln, Option.join_some]
    rw [haccepted]
    cases o with
    | some np =>
      simp only [sCbPing, hln, Option.isSome_some, if_true]
      exact counts_done (by constructor <;> rfl) _
    | none =>
      simp only [sCbPing, hln, Option.isSome_none, Bool.false_eq_true, if_false, brokerFor]
      cases readCookie cookie with
      | none => exact counts_fault _ _
      | some cook =>
        simp only [Option.bind_some]
        cases hashtableHasLocalBroker env b source cook with
        | none => exact counts_fault _ _
        | some o => cases o <;> exact counts_done (.refl _) _

/-- **The commands but for `PING`, `FORWARD` and `CHALLOK` leave the counters.** -/
theorem counts_router (b : DdBroker H) (source : Frame) {cmd : Cmd} (msg : List Frame)
    (hforward : cmd ≠ .forward) (hping : cmd ≠ .ping) (hchallok : cmd ≠ .challok) :
    (onRouterCmd env b source cmd msg).Counts b := by
  cases cmd with
  | forward => exact absurd rfl hforward
  | ping => exact absurd rfl hping
  | challok => exact absurd rfl hchallok
  | send =>
    cases msg with
    | nil => exact counts_done (.refl b) _
    | cons cookie msg =>
      show (sCbSend env b source cookie msg).Counts b
      cases hln : hashtableHasLocalNode env b source cookie with
      | none =>
        simp only [sCbSend, hln]
        exact counts_fault _ _
      | some o =>
        cases o with
        | none =>
          simp only [sCbSend, hln]
          exact counts_done (.refl b) _
        | some ln =>
          cases msg with
          | nil =>
            simp only [sCbSend, hln, zmsgPopstr]
            exact counts_fault _ _
          | cons dest payload =>
            rw [sCbSend_eq hln]
            refine counts_carry (sameCounters_touch b ln) _ _ _ _ _ ?_
            unfold sendNodst
            (repeat' split) <;> first
              | exact counts_fault _ _
              | exact counts_done (by constructor <;> rfl) _
  | pub =>
    cases msg with
    | nil => exact counts_done (.refl b) _
    | cons cookie msg =>
      show (sCbPub env b source cookie msg).Counts b
      unfold sCbPub
      simp only
      (repeat' split) <;> first
        | exact counts_fault _ _
        | exact counts_done (by constructor <;> rfl) _
  | sub =>
    cases msg with
    | nil => exact counts_done (.refl b) _
    | cons cookie msg =>
      show (sCbSub env b source cookie msg).Counts b
      unfold sCbSub
      split
      · exact counts_fault _ _
      · exact counts_done (.refl b) _
      · simp only
        split
        · exact counts_fault _ _
        · split
          · exact counts_fault _ _
          · next hins =>
            obtain ⟨ht, rfl⟩ := insertSubscription_frame hins
            split
            · exact counts_fault _ _
            · exact counts_done (by constructor <;> rfl) _
  | unsub =>
    cases msg with
    | nil => exact counts_done (.refl b) _
    | cons cookie msg =>
      show (sCbUnsub env b source cookie msg).Counts b
      unfold sCbUnsub
      split
      · exact counts_fault _ _
      · exact counts_done (.refl b) _
      · simp only
        split
        · exact counts_fault _ _
        · split
          · exact counts_fault _ _
          · next hrem =>
            exact counts_done ((sameCounters_touch b _).trans (removeSubscription_counters hrem)) _
  | addlcl =>
    have heq : onRouterCmd env b source .addlcl msg = sCbAddlcl env b source msg := by
      cases msg <;> rfl
    rw [heq, sCbAddlcl]
    (repeat' split) <;> exact counts_done (by constructor <;> rfl) _
  | addbr =>
    have heq : onRouterCmd env b source .addbr msg = sCbAddbr env b source msg := by
      cases msg <;> rfl
    rw [heq, sCbAddbr]
    (repeat' split) <;> first
      | exact counts_fault _ _
      | exact counts_done (by constructor <;> rfl) _
  | adddcl =>
    cases msg with
    | nil => exact counts_done (.refl b) _
    | cons cookie msg =>
      show (sCbAdddcl env b source cookie msg).Counts b
      unfold sCbAdddcl
      (repeat' split) <;> first
        | exact counts_fault _ _
        | exact counts_done (by constructor <;> rfl) _
  | unreg =>
    cases msg with
    | nil => exact counts_done (.refl b) _
    | cons cookie msg => exact counts_unregCli b source cookie
  | unregdcli =>
    cases msg with
    | nil => exact counts_done (.refl b) _
    | cons cookie msg =>
      show (sCbUnregDistCli env b source cookie msg).Counts b
      unfold sCbUnregDistCli
      (repeat' split) <;> first
        | exact counts_fault _ _
        | exact counts_done (by constructor <;> rfl) _
  | unregbr | data | error | regok | pong | chall | subok =>
    cases msg <;> exact counts_done (.refl b) _

/-- **The messages from the higher broker leave the counters**, once the own one is 0. -/
theorem counts_dealer (b : DdBroker H) (cmd : Cmd) (msg : List Frame) :
    (onDealerCmd env b cmd msg).Counts b := by
  cases cmd with
  | regok => exact counts_done (by constructor <;> rfl) _
  | forward =>
    show (sCbForwardDsock env b msg).Counts b
    unfold sCbForwardDsock
    split
    · exact counts_carry (.refl b) _ _ _ _ _ (counts_fault b _)
    · exact counts_done (.refl b) _
  | chall =>
    show (sCbChall env b msg).Counts b
    unfold sCbChall
    simp only
    (repeat' split) <;> first
      | exact counts_fault _ _
      | exact counts_done (by constructor <;> rfl) _
  | error =>
    show (sCbHighError env b msg).Counts b
    unfold sCbHighError
    simp only
    (repeat' split) <;> first
      | exact counts_fault _ _
      | exact counts_done (.refl b) _
      | exact counts_done ((removeSubscriptions_counters ‹_›).trans (by constructor <;> rfl)) _
      | exact counts_done (by constructor <;> rfl) _
  | send | ping | addlcl | adddcl | addbr | unreg | unregdcli | unregbr | data | pong | challok
  | pub | sub | unsub | subok => exact counts_done (.refl b) _

omit [DecidableEq H] in
theorem counts_pubRemotely (b : DdBroker H) (pubtopic name : CStr) (msg : List Frame) :
    (pubRemotely b pubtopic name msg).Counts b := by
  unfold pubRemotely
  simp only
  (repeat' split) <;> first
    | exact counts_fault _ _
    | exact counts_done (.refl b) _

omit [DecidableEq H] in
/-- The publications of other brokers leave the counters. -/
theorem counts_pubs (b : DdBroker H) (msg : List Frame) :
    (sOnSubNMsg b msg).Counts b ∧ (sOnSubSMsg b msg).Counts b := by
  constructor
  · unfold sOnSubNMsg
    simp only
    split
    · exact counts_done (.refl b) _
    · split
      · intro b' sends h
        obtain ⟨b₁, s₁, s₂, h₁, h₂, -⟩ := Outcome.andThen_eq_done.mp h
        cases h₂
        exact counts_pubRemotely b _ _ _ _ _ h₁
      · exact counts_fault _ _
  · unfold sOnSubSMsg
    simp only
    split
    · intro b' sends h
      obtain ⟨b₁, s₁, s₂, h₁, h₂, -⟩ := Outcome.andThen_eq_done.mp h
      have hcounts := counts_pubRemotely b _ _ _ _ _ h₁
      split at h₂
      · cases h₂
      · split at h₂
        · cases h₂
        · cases h₂
          exact hcounts
    · exact counts_fault _ _

/-! ## A step -/

/-- **A `CHALLOK`** enters a broker that was not there, or leaves the counters. -/
theorem counts_challok {msg rest : List Frame} {source : Frame}
    (hmsg : routerCmd msg = some (source, .challok, rest))
    (h : sCbChallok env b source rest = .done b' sends) :
    (heardOf env b (.router msg) = none ∧ SameCounters b b') ∨
      ∃ sockid cookie, heardOf env b (.router msg) = some ⟨sockid, cookie⟩ ∧
        SameCounters (hashtableInsertLocalBroker env b sockid cookie) b' := by
  have hheard : heardOf env b (.router msg) = match challokRequest b source rest with
      | .addBroker sockid cookie =>
        if (hashtableHasLocalBroker env b sockid cookie).join.isSome then none
        else some ⟨sockid, cookie⟩
      | _ => none := by
    rw [heardOf, hmsg]
  rcases rest with _ | ⟨cook, _ | ⟨hash, _ | ⟨clientName, rest⟩⟩⟩
  · cases h
  · cases h
    exact .inl ⟨hheard, .refl b⟩
  · cases h
    exact .inl ⟨hheard, .refl b⟩
  · simp only [sCbChallok] at h
    rw [challokRequest] at hheard
    by_cases hhash : CStr.ofBytes hash = b.keys.hash
    · simp only [if_pos hhash] at h hheard
      cases hcook : readCookie cook with
      | none =>
        rw [hcook] at h
        cases h
      | some cookie =>
        simp only [hcook, Option.some.injEq] at h hheard
        by_cases hown : b.keys.cookie = cookie
        · subst hown
          simp only [ne_eq, not_true_eq_false, if_false] at h
          simp only [if_true] at hheard
          cases hbr : hashtableHasLocalBroker env b source b.keys.cookie with
          | none =>
            rw [hbr] at h
            cases h
          | some o =>
            rw [hbr, Option.join_some] at hheard
            rw [hbr] at h
            cases o with
            | none =>
              cases h
              exact .inr ⟨source, b.keys.cookie, hheard, .refl _⟩
            | some br =>
              cases h
              exact .inl ⟨hheard, .refl b⟩
        · rw [if_pos hown] at h
          rw [if_neg fun hc => hown hc.symm] at hheard
          cases h
          exact .inl ⟨hheard, .refl b⟩
    · simp only [if_neg hhash] at h hheard
      have hnone : heardOf env b (.router msg) = none := by
        rw [hheard]
        cases b.keys.tenant (CStr.ofBytes hash) with
        | none => rfl
        | some ten =>
          simp only
          split_ifs <;> rfl
      refine .inl ⟨hnone, ?_⟩
      unfold registerClient at h
      (repeat' split at h) <;> first
        | (cases h; exact .refl b)
        | (obtain ⟨-, -, -, -, rfl⟩ := insertLocalClient_eq ‹_›
           cases h
           exact ⟨rfl, rfl, rfl⟩)
        | cases h

/-- The message is one from the higher broker. -/
def Event.fromHigher : Event → Bool
  | .dealer _ => true
  | _ => false

theorem mem_of_brokerFor {source cookie : Frame} {br : LocalBroker}
    (h : brokerFor env b source cookie = some br) : br ∈ b.lclBrHt.nodes := by
  obtain ⟨cook, -, h⟩ := Option.bind_eq_some_iff.mp h
  exact Lfht.mem_of_lookup (Option.join_eq_some_iff.mp h)

omit [DecidableEq H] in
/-- The counters when a broker in the table is heard, or none is. -/
theorem SameCounters.heard {o : Option LocalBroker} (ho : ∀ br, o = some br → br ∈ b.lclBrHt.nodes)
    (h : SameCounters (b.heard o) b') : b'.timeout = b.timeout ∧
      (∀ br, b'.brTimeout br = if o = some br then 0 else b.brTimeout br) ∧
      ∀ br, br ∈ b'.lclBrHt.nodes ↔ br ∈ b.lclBrHt.nodes ∨ o = some br := by
  have hmem : ∀ br, br ∈ b.lclBrHt.nodes ↔ br ∈ b.lclBrHt.nodes ∨ o = some br := fun br =>
    ⟨.inl, fun h => h.elim id (ho br)⟩
  rw [h.timeout, h.brTimeout, h.lclBrHt]
  cases o with
  | none => exact ⟨rfl, fun br => rfl, hmem⟩
  | some br' =>
    refine ⟨rfl, fun br => ?_, hmem⟩
    by_cases hbr : br = br'
    · simp [DdBroker.heard, DdBroker.touchBroker, hbr]
    · simp [DdBroker.heard, DdBroker.touchBroker, hbr, Ne.symm hbr]

/-- The counters after a message over the router socket. -/
theorem router_counters {msg rest : List Frame} {source : Frame} {cmd : Cmd}
    (hmsg : routerCmd msg = some (source, cmd, rest))
    (h : onRouterCmd env b source cmd rest = .done b' sends) : b'.timeout = b.timeout ∧
      (∀ br, b'.brTimeout br =
        if heardOf env b (.router msg) = some br then 0 else b.brTimeout br) ∧
      ∀ br, br ∈ b'.lclBrHt.nodes ↔
        br ∈ b.lclBrHt.nodes ∨ heardOf env b (.router msg) = some br := by
  have hof : heardOf env b (.router msg) = heardOf env b (.router msg) := rfl
  conv_rhs at hof => rw [heardOf, hmsg]
  cases cmd with
  | forward =>
    cases rest with
    | nil =>
      cases h
      exact SameCounters.heard (fun br hbr => by rw [hof] at hbr; cases hbr) (hof ▸ .refl b)
    | cons cookie rest =>
      simp only at hof
      rw [hof]
      exact SameCounters.heard (fun br => mem_of_brokerFor)
        (counts_forward b source cookie rest _ _ h)
  | ping =>
    cases rest with
    | nil =>
      cases h
      exact SameCounters.heard (fun br hbr => by rw [hof] at hbr; cases hbr) (hof ▸ .refl b)
    | cons cookie rest =>
      simp only at hof
      rw [hof]
      refine SameCounters.heard (fun br hbr => ?_) (counts_ping b source cookie _ _ h)
      split at hbr
      · cases hbr
      · exact mem_of_brokerFor hbr
  | challok =>
    have h : sCbChallok env b source rest = .done b' sends := by cases rest <;> exact h
    obtain ⟨hnone, hsame⟩ | ⟨sockid, cookie, hsome, hsame⟩ := counts_challok hmsg h
    · exact SameCounters.heard (fun br hbr => by rw [hnone] at hbr; cases hbr) (hnone ▸ hsame)
    · rw [hsome, hsame.timeout, hsame.brTimeout, hsame.lclBrHt]
      refine ⟨rfl, fun br => ?_, fun br => ?_⟩
      · simp [hashtableInsertLocalBroker, DdBroker.touchBroker, eq_comm]
      · simp [hashtableInsertLocalBroker, Lfht.nodes_add, eq_comm]
  | _ =>
    have hnone : heardOf env b (.router msg) = none := by
      rw [hof]
    exact SameCounters.heard (fun br hbr => by rw [hnone] at hbr; cases hbr)
      (hnone ▸ counts_router b source rest (by decide) (by decide) (by decide) _ _ h)

/-- **A step that is no tick** starts the counter of the broker that is heard again, and the own one
when the higher broker is. -/
theorem step_counters (hheart : e ≠ .heartbeat) (hcheck : e ≠ .checkBrTimeout)
    (h : step env b e = .done b' sends) :
    b'.timeout = (if e.fromHigher then 0 else b.timeout) ∧
      (∀ br, b'.brTimeout br = if heardOf env b e = some br then 0 else b.brTimeout br) ∧
      ∀ br, br ∈ b'.lclBrHt.nodes ↔ br ∈ b.lclBrHt.nodes ∨ heardOf env b e = some br := by
  have hquiet : heardOf env b e = none → SameCounters b b' → e.fromHigher = false →
      b'.timeout = (if e.fromHigher then 0 else b.timeout) ∧
      (∀ br, b'.brTimeout br = if heardOf env b e = some br then 0 else b.brTimeout br) ∧
      ∀ br, br ∈ b'.lclBrHt.nodes ↔ br ∈ b.lclBrHt.nodes ∨ heardOf env b e = some br := by
    intro hnone hsame hhigher
    rw [hnone, hhigher, hsame.timeout, hsame.brTimeout, hsame.lclBrHt]
    simp
  cases e with
  | router msg =>
    rcases sOnRouterMsg_eq env b msg with ⟨source, cmd, rest, hmsg, heq⟩ | ⟨hmsg, heq | ⟨_, heq, -⟩⟩
    · exact router_counters hmsg (heq.symm.trans h)
    · cases heq.symm.trans h
    · cases heq.symm.trans h
      exact hquiet (by simp [heardOf, hmsg]) (.refl b) rfl
  | dealer msg =>
    have hdealer : SameCounters { b with timeout := 0 } b' := by
      rcases sOnDealerMsg_eq env b msg with ⟨cmd, rest, hm, heq⟩ | ⟨-, heq | heq⟩
      · exact counts_dealer { b with timeout := 0 } cmd rest _ _ (heq.symm.trans h)
      · cases heq.symm.trans h
      · cases heq.symm.trans h
        exact .refl _
    rw [hdealer.timeout, hdealer.brTimeout, hdealer.lclBrHt]
    simp [heardOf, Event.fromHigher]
  | subN msg => exact hquiet rfl ((counts_pubs b msg).1 _ _ h) rfl
  | subS msg => exact hquiet rfl ((counts_pubs b msg).2 _ _ h) rfl
  | pubN msg =>
    rw [show step env b (.pubN msg) = sOnPubNMsg b msg from rfl, sOnPubNMsg] at h
    split at h
    · cases h
    · split at h <;> cases h
      exact hquiet rfl (.refl b) rfl
  | pubS msg =>
    rw [show step env b (.pubS msg) = sOnPubSMsg b msg from rfl, sOnPubSMsg] at h
    split at h
    · cases h
    · split at h <;> cases h
      exact hquiet rfl (.refl b) rfl
  | register =>
    rw [show step env b .register = sRegister b from rfl, sRegister] at h
    split at h <;> cases h <;> exact hquiet rfl (.refl b) rfl
  | heartbeat => exact absurd rfl hheart
  | checkCliTimeout =>
    refine hquiet rfl ?_ rfl
    exact checkClients_induction (P := SameCounters b)
      (fun _ _ hb => hb.trans ⟨rfl, rfl, rfl⟩)
      (fun b₁ np _ _ hb hu => hb.trans (counts_unregCli b₁ np.sockid np.cookie.1 _ _ hu))
      (.refl b) h
  | checkBrTimeout => exact absurd rfl hcheck

/-! ## The ticks -/

omit [DecidableEq H] in
/-- The counters after the loop of `s_check_br_timeout`, and the brokers it leaves. -/
theorem checkBrokers_counters {l : List LocalBroker} (hnd : l.Nodup) :
    ∀ {b : DdBroker H} {sends : List Send}, checkBrokers l b = .done b' sends →
      (∀ br, br ∈ b'.lclBrHt.nodes ↔ br ∈ b.lclBrHt.nodes ∧ (br ∈ l → b.brTimeout br < 3)) ∧
        ∀ br, (br ∈ l → b.brTimeout br < 3) →
          b'.brTimeout br = if br ∈ l then b.brTimeout br + 1 else b.brTimeout br := by
  induction l with
  | nil =>
    intro b sends h
    cases h
    simp
  | cons np rest ih =>
    intro b sends h
    obtain ⟨hnp, hnd⟩ := List.nodup_cons.mp hnd
    rw [checkBrokers] at h
    split at h
    · next hlt =>
      obtain ⟨hnodes, hcounters⟩ := ih hnd h
      refine ⟨fun br => (hnodes br).trans (and_congr_right fun _ => ?_), fun br hbr => ?_⟩
      · by_cases hne : br = np
        · subst hne
          simp [hnp, hlt]
        · simp [hne]
      · by_cases hne : br = np
        · subst hne
          rw [hcounters br fun hmem => absurd hmem hnp]
          simp [hnp]
        · rw [hcounters br (by simpa [hne] using hbr)]
          simp [hne]
    · next hge =>
      obtain ⟨b₁, s₁, s₂, h₁, h₂, -⟩ := Outcome.andThen_eq_done.mp h
      cases h₁
      obtain ⟨hnodes, hcounters⟩ := ih hnd h₂
      refine ⟨fun br => ?_, fun br hbr => ?_⟩
      · rw [hnodes, nodes_filter b.lclBrHt fun br => br ≠ np, List.mem_filter]
        by_cases hne : br = np
        · subst hne
          simp [hge]
        · simp [hne]
      · have hne : br ≠ np := fun heq => hge (heq ▸ hbr (heq ▸ List.mem_cons_self))
        rw [hcounters br fun hmem => hbr (List.mem_cons_of_mem _ hmem)]
        simp [hne]

/-- **A tick** removes the brokers with the counter 3, and adds one to the counter of the others. -/
theorem tick_counters (hok : TablesOk env b) (h : step env b .checkBrTimeout = .done b' sends) :
    (∀ br, br ∈ b'.lclBrHt.nodes ↔ br ∈ b.lclBrHt.nodes ∧ b.brTimeout br < 3) ∧
      ∀ br ∈ b'.lclBrHt.nodes, b'.brTimeout br = b.brTimeout br + 1 := by
  obtain ⟨hnodes, hcounters⟩ := checkBrokers_counters hok.brNodup.of_map h
  have hiff : ∀ br, br ∈ b'.lclBrHt.nodes ↔ br ∈ b.lclBrHt.nodes ∧ b.brTimeout br < 3 := fun br =>
    (hnodes br).trans (and_congr_right fun hbr => ⟨fun h => h hbr, fun h _ => h⟩)
  refine ⟨hiff, fun br hbr => ?_⟩
  obtain ⟨hold, hlt⟩ := (hiff br).mp hbr
  rw [hcounters br fun _ => hlt, if_pos hold]

/-! ## The two watchdogs -/

variable (env) in
/-- What an event is for the counter of a lower broker. -/
def brokerBeat (b : DdBroker H) (e : Event) (br : LocalBroker) : Beat :=
  if e = .checkBrTimeout then .tick else if heardOf env b e = some br then .renew else .rest

/-- What an event is for the counter of the own link. -/
def linkBeat (e : Event) : Beat :=
  if e = .heartbeat then .tick else if e.fromHigher then .renew else .rest

omit [DecidableEq H] in
/-- **A heartbeat** adds one to the counter of the link and gives the registration up above three;
it leaves the other counters. -/
theorem heartbeat_counters (h : sHeartbeat b = .done b' sends) :
    b'.timeout = b.timeout + 1 ∧ b'.brTimeout = b.brTimeout ∧ b'.lclBrHt = b.lclBrHt ∧
      b'.state = if 3 ≤ b.timeout then .root else b.state := by
  rw [sHeartbeat] at h
  cases h
  by_cases hlapse : 3 < b.timeout + 1
  · simp [hlapse, Nat.lt_succ_iff.mp hlapse]
  · simp [hlapse, show ¬ 3 ≤ b.timeout from fun hge => hlapse (Nat.lt_succ_of_le hge)]

/-- **What a step does to the entries of the lower brokers.** -/
theorem step_brokers (hok : TablesOk env b) (h : step env b e = .done b' sends) (br : LocalBroker) :
    (br ∈ b'.lclBrHt.nodes → br ∉ b.lclBrHt.nodes → brokerBeat env b e br = .renew) ∧
      (br ∈ b.lclBrHt.nodes →
        (br ∉ b'.lclBrHt.nodes ↔ brokerBeat env b e br = .tick ∧ 3 ≤ b.brTimeout br)) ∧
      (br ∈ b'.lclBrHt.nodes →
        b'.brTimeout br = (brokerBeat env b e br).after (b.brTimeout br)) := by
  by_cases hcheck : e = .checkBrTimeout
  · subst hcheck
    obtain ⟨hnodes, hcounters⟩ := tick_counters hok h
    rw [brokerBeat, if_pos rfl]
    refine ⟨fun hnew hold => absurd ((hnodes br).mp hnew).1 hold, fun hold => ?_, hcounters br⟩
    rw [hnodes, not_and, not_lt]
    exact ⟨fun hge => ⟨rfl, hge hold⟩, fun hge _ => hge.2⟩
  · by_cases hheart : e = .heartbeat
    · subst hheart
      obtain ⟨-, hcounters, hnodes, -⟩ := heartbeat_counters h
      rw [brokerBeat, if_neg hcheck, hnodes, hcounters]
      exact ⟨fun hnew hold => absurd hnew hold,
        fun hold => ⟨fun hgone => absurd hold hgone, fun htick => by cases htick.1⟩, fun _ => rfl⟩
    · obtain ⟨-, hcounters, hnodes⟩ := step_counters hheart hcheck h
      rw [brokerBeat, if_neg hcheck, hcounters, hnodes]
      by_cases hheard : heardOf env b e = some br
      · simp only [hheard, if_true, or_true, Beat.after]
        simp
      · simp only [hheard, if_false, or_false, Beat.after]
        simp

/-- The registration after a step that is no heartbeat. -/
theorem step_state (hheart : e ≠ .heartbeat) (h : step env b e = .done b' sends) :
    b'.state = b.state ∨ b'.state = .registered ∧ linkBeat e = .renew := by
  by_cases hregok : ∃ msg rest, e = .dealer msg ∧ dealerCmd msg = some (.regok, rest)
  · obtain ⟨msg, rest, rfl, hm⟩ := hregok
    rw [step_dealer hm] at h
    cases h
    exact .inr ⟨rfl, rfl⟩
  · exact .inl (step_links h (fun msg rest he hm => hregok ⟨msg, rest, he, hm⟩) hheart).state

/-- **What a step does to the registration.** -/
theorem step_link (h : step env b e = .done b' sends) :
    (b'.state = .registered → b.state ≠ .registered → linkBeat e = .renew) ∧
      (b.state = .registered →
        (b'.state ≠ .registered ↔ linkBeat e = .tick ∧ 3 ≤ b.timeout)) ∧
      b'.timeout = (linkBeat e).after b.timeout := by
  by_cases hheart : e = .heartbeat
  · subst hheart
    obtain ⟨hcounter, -, -, hstate⟩ := heartbeat_counters h
    rw [linkBeat, if_pos rfl, hcounter, hstate]
    refine ⟨fun hnew hold => ?_, fun hold => ?_, rfl⟩
    · split at hnew
      · cases hnew
      · exact absurd hnew hold
    · by_cases hge : 3 ≤ b.timeout <;> simp [hge, hold]
  · have hcounter : b'.timeout = (linkBeat e).after b.timeout := by
      rw [linkBeat, if_neg hheart]
      by_cases hcheck : e = .checkBrTimeout
      · subst hcheck
        exact checkBrokers_induction (P := fun b₁ => b₁.timeout = b.timeout) (fun _ _ hb => hb)
          (fun _ _ hb => hb) rfl h
      · rw [(step_counters hheart hcheck h).1]
        cases e.fromHigher <;> rfl
    have hbeat : linkBeat e ≠ .tick := by
      rw [linkBeat, if_neg hheart]
      split <;> simp
    have hstate := step_state hheart h
    refine ⟨fun hnew hold => ?_, fun hold => ?_, hcounter⟩
    · obtain hsame | ⟨-, hrenew⟩ := hstate
      · exact absurd (hsame ▸ hnew) hold
      · exact hrenew
    · have hkept : b'.state = .registered := hstate.elim (fun hsame => hsame.trans hold) And.left
      exact ⟨fun hgone => absurd hkept hgone, fun htick => absurd htick.1 hbeat⟩

/-- **The counters of lower brokers** are a watchdog. -/
def brokerWatch (env : Env H) (hinj : Function.Injective env.xxh32) (cfg : Config) :
    Watchdog (DdBroker H) Event LocalBroker where
  step b e b' := Reachable env cfg b ∧ ∃ sends, step env b e = .done b' sends
  present b br := br ∈ b.lclBrHt.nodes
  age b br := b.brTimeout br
  beat := brokerBeat env
  limit := 3
  comes := fun ⟨hreach, _, h⟩ => (step_brokers (hreach.tablesOk hinj) h _).1
  goes := fun ⟨hreach, _, h⟩ => (step_brokers (hreach.tablesOk hinj) h _).2.1
  age_after := fun ⟨hreach, _, h⟩ => (step_brokers (hreach.tablesOk hinj) h _).2.2

/-- **The counter of the own link** is a watchdog of the registration. -/
def linkWatch (env : Env H) : Watchdog (DdBroker H) Event Unit where
  step b e b' := ∃ sends, step env b e = .done b' sends
  present b _ := b.state = .registered
  age b _ := b.timeout
  beat _ e _ := linkBeat e
  limit := 3
  comes := fun ⟨_, h⟩ => (step_link h).1
  goes := fun ⟨_, h⟩ => (step_link h).2.1
  age_after := fun ⟨_, h⟩ _ => (step_link h).2.2

/-! ## Runs -/

variable (env) in
/-- The events of a run and the states they met, the last one first. -/
def history (cfg : Config) : List Event → List (DdBroker H × Event)
  | [] => []
  | e :: es =>
    match runEvents env (ddBrokerNew H cfg) es with
    | none => []
    | some b => (b, e) :: history cfg es

theorem history_cons {cfg : Config} {es : List Event} (hrun : Run env cfg es b) (e : Event) :
    history env cfg (e :: es) = (b, e) :: history env cfg es := by
  rw [history, hrun.runEvents]

/-- A run is a trace of a watchdog whose steps are those of the broker. -/
theorem Run.trace {ι : Type} {w : Watchdog (DdBroker H) Event ι} {cfg : Config}
    (hnew : ∀ i, ¬ w.present (ddBrokerNew H cfg) i)
    (hstep : ∀ b e b' sends, Reachable env cfg b → DoubleDecker.step env b e = .done b' sends →
      w.step b e b') {es : List Event} (hrun : Run env cfg es b) :
    w.Trace (history env cfg es) b := by
  induction hrun with
  | init => exact .init hnew
  | step hrun _ hs ih =>
    rw [history_cons hrun]
    exact .snoc ih (hstep _ _ _ _ ⟨_, hrun⟩ hs)

variable (env) in
/-- The ticks of `s_check_br_timeout` since the broker registered or was last heard. -/
def brokerTicks (cfg : Config) (es : List Event) (br : LocalBroker) : Nat :=
  ticks ((history env cfg es).map fun p => brokerBeat env p.1 p.2 br)

/-- The heartbeats since the higher broker was last heard. -/
def linkTicks (es : List Event) : Nat := ticks (es.map linkBeat)

/-- **A lower broker goes exactly at the fourth tick** since it registered or since its last
accepted `PING` or `FORWARD`, and at no other step of any run. -/
theorem lower_broker_expires (hinj : Function.Injective env.xxh32) {cfg : Config} {es : List Event}
    (hrun : Run env cfg es b) (h : step env b e = .done b' sends) {br : LocalBroker}
    (hbr : br ∈ b.lclBrHt.nodes) :
    br ∉ b'.lclBrHt.nodes ↔ e = .checkBrTimeout ∧ brokerTicks env cfg es br = 3 := by
  have htrace : (brokerWatch env hinj cfg).Trace (history env cfg es) b :=
    hrun.trace (w := brokerWatch env hinj cfg) (fun _ => List.not_mem_nil)
      fun _ _ _ sends hreach hs => ⟨hreach, sends, hs⟩
  refine (htrace.gone_iff ⟨⟨es, hrun⟩, sends, h⟩ hbr).trans (and_congr_left fun _ => ?_)
  show brokerBeat env b e br = .tick ↔ _
  rw [brokerBeat]
  split_ifs with hcheck <;> simp [hcheck]

theorem map_history {cfg : Config} {es : List Event} (hrun : Run env cfg es b) :
    (history env cfg es).map Prod.snd = es := by
  induction hrun with
  | init => rfl
  | step hrun _ _ ih => rw [history_cons hrun, List.map_cons, ih]

/-! ### The timers of the link -/

/-- **What a step does to the timers**: a `REGOK` ends the timer of `reg_loop` and starts a
heartbeat, giving up ends the heartbeat that was started last. -/
inductive Times (b : DdBroker H) (e : Event) : DdBroker H → Prop
  | same {b' : DdBroker H} (state : b'.state = b.state) (loop : b'.loop = b.loop)
      (heartbeatLoop : b'.heartbeatLoop = b.heartbeatLoop) : Times b e b'
  | regok {b' : DdBroker H} {msg rest : List Frame} (event : e = .dealer msg)
      (cmd : dealerCmd msg = some (.regok, rest)) (state : b'.state = .registered)
      (loop : b'.loop = (b.loop.timerEnd b.regLoop).timer .sHeartbeat)
      (heartbeatLoop : b'.heartbeatLoop = b.loop.nextTimerId) : Times b e b'
  | lapse {b' : DdBroker H} (event : e = .heartbeat) (state : b'.state = .root)
      (loop : b'.loop = (b.loop.timerEnd b.heartbeatLoop).timer .sRegister)
      (regLoop : b'.regLoop = b.loop.nextTimerId)
      (heartbeatLoop : b'.heartbeatLoop = b.heartbeatLoop) : Times b e b'

theorem step_times (h : step env b e = .done b' sends) : Times b e b' := by
  by_cases hheart : e = .heartbeat
  · subst hheart
    have h : sHeartbeat b = .done b' sends := h
    rw [sHeartbeat] at h
    cases h
    by_cases hlapse : 3 < b.timeout + 1
    · simp only [hlapse, if_true]
      exact .lapse rfl rfl rfl rfl rfl
    · simp only [hlapse, if_false]
      exact .same rfl rfl rfl
  · by_cases hregok : ∃ msg rest, e = .dealer msg ∧ dealerCmd msg = some (.regok, rest)
    · obtain ⟨msg, rest, rfl, hm⟩ := hregok
      rw [step_dealer hm] at h
      cases h
      exact .regok rfl hm rfl rfl rfl
    · have hsame := step_links h (fun msg rest he hm => hregok ⟨msg, rest, he, hm⟩) hheart
      exact .same hsame.state hsame.loop hsame.heartbeatLoop

/-- The id in `heartbeat_loop` is not that of a timer to come. -/
theorem Run.heartbeatLoop_lt {cfg : Config} {es : List Event} (hrun : Run env cfg es b) :
    b.heartbeatLoop < b.loop.nextTimerId := by
  induction hrun with
  | init => exact Nat.succ_pos _
  | step _ _ hs ih =>
    cases step_times hs with
    | same state loop heartbeatLoop => rwa [loop, heartbeatLoop]
    | regok event cmd state loop heartbeatLoop =>
      rw [loop, heartbeatLoop]
      exact Nat.lt_succ_self _
    | lapse event state loop regLoop heartbeatLoop =>
      rw [loop, heartbeatLoop]
      exact Nat.lt_succ_of_lt ih

/-- The broker is registered once at a time: no `REGOK` comes while it is registered. -/
def regokOnce {H : Type} (b : DdBroker H) : Event → Bool
  | .dealer msg => decide (b.state ≠ .registered) || (dealerCmd msg).all fun p => p.1 ≠ .regok
  | _ => true

/-- **The heartbeats that run** are the one started last, and that while the broker is
registered. -/
def OneHeartbeat {H : Type} (b : DdBroker H) : Prop :=
  ∀ id, (id, .sHeartbeat) ∈ b.loop.timers → id = b.heartbeatLoop ∧ b.state = .registered

theorem OneHeartbeat.step (hone : OneHeartbeat b) (hcond : regokOnce b e)
    (h : step env b e = .done b' sends) : OneHeartbeat b' := by
  intro id hmem
  cases step_times h with
  | same state loop heartbeatLoop =>
    rw [heartbeatLoop, state]
    exact hone id (loop ▸ hmem)
  | regok event cmd state loop heartbeatLoop =>
    subst event
    rw [loop, Zloop.mem_timers_timer, Zloop.mem_timers_timerEnd] at hmem
    obtain ⟨hold, -⟩ | hnew := hmem
    · -- a heartbeat runs, so the broker was registered
      simp [regokOnce, cmd, (hone id hold).2] at hcond
    · exact ⟨(congrArg Prod.fst hnew).trans heartbeatLoop.symm, state⟩
  | lapse event state loop regLoop heartbeatLoop =>
    rw [loop, Zloop.mem_timers_timer, Zloop.mem_timers_timerEnd] at hmem
    obtain ⟨hold, hne⟩ | hnew := hmem
    · exact absurd (hone id hold).1 hne
    · cases hnew

theorem RunIf.oneHeartbeat {cfg : Config} {es : List Event}
    (hrun : RunIf env cfg regokOnce es b) : OneHeartbeat b := by
  induction hrun with
  | init =>
    intro id hmem
    simp only [ddBrokerNew] at hmem
    split at hmem <;> simp [Zloop.timer, Zloop.empty] at hmem
  | step _ _ hcond hs ih => exact ih.step hcond hs

/-- **A registration is given up exactly at the fourth heartbeat** since anything came from the
higher broker, and at no other step of any run.  The broker is then a root that asks to be
registered, and the heartbeat it started last has ended; it was the only one, unless a `REGOK` came
while the broker was registered. -/
theorem registration_lapses {cfg : Config} {es : List Event} (hrun : Run env cfg es b)
    (h : step env b e = .done b' sends) (hreg : b.state = .registered) :
    (b'.state ≠ .registered ↔ e = .heartbeat ∧ linkTicks es = 3) ∧
      (b'.state ≠ .registered →
        b'.state = .root ∧ (b'.regLoop, .sRegister) ∈ b'.loop.timers ∧
          (∀ fn, (b'.heartbeatLoop, fn) ∉ b'.loop.timers) ∧
          (RunIf env cfg regokOnce es b → b'.loop.runs .sHeartbeat = false)) := by
  have htrace : (linkWatch env).Trace (history env cfg es) b := by
    refine hrun.trace (w := linkWatch env) (fun _ hnew => ?_) fun _ _ _ sends _ hs => ⟨sends, hs⟩
    have hnew : (if cfg.dealer then DdState.unreg else .root) = .registered := hnew
    split at hnew <;> cases hnew
  have hticks : ticks ((linkWatch env).beats (history env cfg es) ()) = linkTicks es := by
    rw [linkTicks]
    conv_rhs => rw [← map_history hrun, List.map_map]
    rfl
  have hgone := htrace.gone_iff (i := ()) ⟨sends, h⟩ hreg
  rw [hticks] at hgone
  refine ⟨hgone.trans (and_congr_left fun _ => ?_), fun hlapse => ?_⟩
  · show linkBeat e = .tick ↔ _
    rw [linkBeat]
    split_ifs with hheart <;> simp [hheart]
  · cases step_times h with
    | same state => exact absurd (state.trans hreg) hlapse
    | regok event cmd state => exact absurd state hlapse
    | lapse event state loop regLoop heartbeatLoop =>
      refine ⟨state, ?_, fun fn hmem => ?_, fun hif => Bool.eq_false_iff.mpr fun hruns => ?_⟩
      · rw [loop, regLoop]
        exact Zloop.mem_timers_timer.mpr (.inr rfl)
      · rw [loop, heartbeatLoop, Zloop.mem_timers_timer, Zloop.mem_timers_timerEnd] at hmem
        obtain ⟨-, hne⟩ | hnew := hmem
        · exact hne rfl
        · exact hrun.heartbeatLoop_lt.ne (congrArg Prod.fst hnew)
      · obtain ⟨id, hmem⟩ := Zloop.runs_eq_true.mp hruns
        have hone := hif.oneHeartbeat.step (e := e) (by rw [event]; rfl) h
        exact hlapse (hone id hmem).2

/-- The fourth tick after a broker registered. -/
theorem lower_broker_expires_silentRun : ∃ b b' : DdBroker (List UInt8), ∃ sends,
    step plainEnv b .checkBrTimeout = .done b' sends ∧
      (⟨[9], demoKeys.cookie⟩ ∉ b'.lclBrHt.nodes ↔ Event.checkBrTimeout = .checkBrTimeout ∧
        brokerTicks plainEnv lowerConfig silentRun ⟨[9], demoKeys.cookie⟩ = 3) ∧
      brokerTicks plainEnv lowerConfig silentRun ⟨[9], demoKeys.cookie⟩ = 3 := by
  obtain ⟨b, hb, hbr⟩ := Option.map_eq_some_iff.mp (show (runEvents plainEnv
    (ddBrokerNew _ lowerConfig) silentRun).map (fun b => b.lclBrHt.nodes) =
      some [⟨[9], demoKeys.cookie⟩] by decide)
  have hrun : Run plainEnv lowerConfig silentRun b := .of_runEvents hb
  obtain ⟨-, f, sends, hstep, -⟩ := distant_clients_hang (fun _ _ h => h) ⟨silentRun, hrun⟩
  exact ⟨b, _, sends, hstep, lower_broker_expires (fun _ _ h => h) hrun hstep
    (hbr ▸ List.mem_cons_self), by decide⟩

/-- A broker registers and hears nothing more. -/
def deafRun : List Event := [.heartbeat, .heartbeat, .heartbeat, regokEvent]

/-- The fourth heartbeat. -/
theorem registration_lapses_deafRun : ∃ b : DdBroker (List UInt8), ∃ b' sends,
    step plainEnv b .heartbeat = .done b' sends ∧
      ((b'.state ≠ .registered ↔ Event.heartbeat = .heartbeat ∧ linkTicks deafRun = 3) ∧
        (b'.state ≠ .registered →
          b'.state = .root ∧ (b'.regLoop, .sRegister) ∈ b'.loop.timers ∧
            (∀ fn, (b'.heartbeatLoop, fn) ∉ b'.loop.timers) ∧
            (RunIf plainEnv lowerConfig regokOnce deafRun b → b'.loop.runs .sHeartbeat = false))) ∧
      linkTicks deafRun = 3 := by
  obtain ⟨b, hb, hreg⟩ := Option.map_eq_some_iff.mp (show (runEvents plainEnv
    (ddBrokerNew (List UInt8) lowerConfig) deafRun).map (fun b => b.state) =
      some .registered by decide)
  exact ⟨b, _, _, rfl, registration_lapses (.of_runEvents hb) rfl hreg, by decide⟩

end DoubleDecker
