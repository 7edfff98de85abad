import DoubleDecker.Broker.Routing
import DoubleDecker.Broker.Subs
import Mathlib.Data.Finset.Card

/-!
# Broker/Propagation — subscriptions told to the sub sockets

`s_cb_sub` and `s_cb_unsub` send the key of a subscription to both sub sockets, with a first byte 1
or 0.  `propagation_balanced`: the frames are those of the pairs that come and go, in every run in
which no client leaves with subscriptions and every `UNSUB` removes what it names.
-/

namespace DoubleDecker

open Trie

variable {H : Type} [DecidableEq H] {env : Env H} {b b' : DdBroker H} {e : Event}
  {ln : LocalClient} {s : Frame} {t : CStr} {sends : List Send}

/-! ## The live subscriptions -/

/-- The pairs of socket id and topic in `subscribe_ht`. -/
def liveSubs {H : Type} (b : DdBroker H) : Finset (Frame × CStr) :=
  (b.subscribeHt.nodes.flatMap fun n => n.topics.map fun t => (n.sockid, t)).toFinset

/-- The live subscriptions to a topic. -/
def liveCount {H : Type} (b : DdBroker H) (t : CStr) : Nat :=
  ((liveSubs b).filter fun p => p.2 = t).card

/-- The pairs of a topic that came. -/
def addedCount {H : Type} (b b' : DdBroker H) (t : CStr) : Nat :=
  ((liveSubs b' \ liveSubs b).filter fun p => p.2 = t).card

omit [DecidableEq H] in
theorem TablesOk.mem_liveSubs (hok : TablesOk env b) (s : Frame) (t : CStr) :
    (s, t) ∈ liveSubs b ↔ t ∈ topicsOf b s := by
  simp only [liveSubs, List.mem_toFinset, List.mem_flatMap, List.mem_map, Prod.mk.injEq, topicsOf]
  constructor
  · rintro ⟨n, hn, t', ht', rfl, rfl⟩
    rw [(Lfht.find?_key_eq_some hok.subNodup).mpr ⟨hn, rfl⟩]
    exact ht'
  · intro ht
    cases hn : b.subscribeHt.nodes.find? fun n => n.sockid = s with
    | none => rw [hn] at ht; exact absurd ht List.not_mem_nil
    | some n =>
      rw [hn] at ht
      obtain ⟨hmem, hsock⟩ := (Lfht.find?_key_eq_some hok.subNodup).mp hn
      exact ⟨n, hmem, t, ht, hsock, rfl⟩

omit [DecidableEq H] in
/-- The same lists have the same pairs. -/
theorem liveSubs_congr (hok : TablesOk env b) (hok' : TablesOk env b')
    (h : ∀ s, topicsOf b' s = topicsOf b s) : liveSubs b' = liveSubs b := by
  ext ⟨s, t⟩
  rw [hok.mem_liveSubs, hok'.mem_liveSubs, h]

omit [DecidableEq H] in
/-- **What is live afterwards** is what was, with what came and without what went. -/
theorem liveCount_add (b b' : DdBroker H) (t : CStr) :
    liveCount b' t + addedCount b' b t = liveCount b t + addedCount b b' t := by
  have hcard : ∀ A B : Finset (Frame × CStr),
      ((A \ B).filter fun p => p.2 = t).card + (B.filter fun p => p.2 = t).card =
        ((A ∪ B).filter fun p => p.2 = t).card := by
    intro A B
    have hfilter : (A \ B).filter (fun p => p.2 = t) =
        (A.filter fun p => p.2 = t) \ B.filter fun p => p.2 = t := by
      ext p
      simp only [Finset.mem_filter, Finset.mem_sdiff, not_and]
      exact ⟨fun h => ⟨⟨h.1.1, h.2⟩, fun hB => absurd hB h.1.2⟩,
        fun h => ⟨⟨h.1.1, fun hB => h.2 hB h.1.2⟩, h.1.2⟩⟩
    rw [hfilter, Finset.card_sdiff_add_card, ← Finset.filter_union]
  rw [liveCount, liveCount, addedCount, addedCount, Nat.add_comm, hcard, Nat.add_comm, hcard,
    Finset.union_comm]

/-! ## The frames of a step -/

/-- The frame for a subscription, or for its end. -/
def subFrame (first : UInt8) (t : CStr) : List Frame := [first :: t.bytes]

omit [DecidableEq H] in
theorem subFrame_inj {f g : UInt8} {t u : CStr} : subFrame f t = subFrame g u ↔ f = g ∧ t = u := by
  simp [subFrame, CStr.ext_iff]

/-- **A balanced step** — one frame with a 1 for each pair that came, one with a 0 for each that
went, on the sub socket to the south and, once it is open, on that to the north. -/
structure StepBalanced {H : Type} (b b' : DdBroker H) (sends : List Send) : Prop where
  south : ∀ t, sends.count (.subS (subFrame 1 t)) = addedCount b b' t
  southGone : ∀ t, sends.count (.subS (subFrame 0 t)) = addedCount b' b t
  north : ∀ t, sends.count (.subN (subFrame 1 t)) = if b.connectedN then addedCount b b' t else 0
  northGone : ∀ t, sends.count (.subN (subFrame 0 t)) =
    if b.connectedN then addedCount b' b t else 0

/-- A message to one of the sub sockets. -/
def Send.toSub : Send → Bool
  | .subN _ | .subS _ => true
  | _ => false

/-- Nothing is sent to the sub sockets. -/
def Outcome.Quiet {H : Type} (o : Outcome H) : Prop := ∀ x ∈ o.sends, x.toSub = false

omit [DecidableEq H] in
/-- **A quiet step that changes no pair is balanced.** -/
theorem StepBalanced.quiet (hquiet : ∀ x ∈ sends, x.toSub = false)
    (hsame : liveSubs b' = liveSubs b) : StepBalanced b b' sends := by
  have hzero : ∀ x : Send, x.toSub = true → sends.count x = 0 := fun x hx =>
    List.count_eq_zero.mpr fun hmem => by rw [hquiet x hmem] at hx; cases hx
  have hadded : ∀ t, addedCount b b' t = 0 ∧ addedCount b' b t = 0 := fun t => by
    simp [addedCount, hsame]
  refine ⟨fun t => ?_, fun t => ?_, fun t => ?_, fun t => ?_⟩
  · rw [hzero _ rfl, (hadded t).1]
  · rw [hzero _ rfl, (hadded t).2]
  · rw [hzero _ rfl, (hadded t).1, ite_self]
  · rw [hzero _ rfl, (hadded t).2, ite_self]

omit [DecidableEq H] in
/-- The frames of `tellSubs`. -/
theorem count_tellSubs (b : DdBroker H) (f g : UInt8) (key t : CStr) :
    (tellSubs b f key).count (.subS (subFrame g t)) = (if f = g ∧ key = t then 1 else 0) ∧
    (tellSubs b f key).count (.subN (subFrame g t)) =
      if b.connectedN then (if f = g ∧ key = t then 1 else 0) else 0 := by
  have hkey : ([f :: key.bytes] : List Frame) = subFrame f key := rfl
  have hS : ∀ a : List Frame, (Send.subS a == .subS (subFrame g t)) = decide (a = subFrame g t) :=
    fun a => by simp [beq_eq_decide]
  have hN : ∀ a : List Frame, (Send.subN a == .subN (subFrame g t)) = decide (a = subFrame g t) :=
    fun a => by simp [beq_eq_decide]
  unfold tellSubs
  rw [hkey]
  cases b.connectedN with
  | true => simp [List.count_cons, hS, hN, subFrame_inj]
  | false => simp [List.count_cons, hS, subFrame_inj]

/-! ## Steps that say nothing -/

omit [DecidableEq H] in
theorem quiet_delCliUp (b : DdBroker H) (name : CStr) : ∀ x ∈ delCliUp b name, x.toSub = false := by
  unfold delCliUp
  split <;> simp [Send.toSub]

omit [DecidableEq H] in
theorem quiet_addCliUp (b : DdBroker H) (name : CStr) (dist : UInt32) :
    ∀ x ∈ addCliUp b name dist, x.toSub = false := by
  unfold addCliUp
  split <;> simp [Send.toSub]

omit [DecidableEq H] in
theorem quiet_deliver (b : DdBroker H) (ln : LocalClient) (srcpublic dstpublic : Bool) (src : CStr)
    (msg : List Frame) : (deliver b ln srcpublic dstpublic src msg).Quiet := by
  unfold deliver forwardLocally
  (repeat' split) <;> simp [Outcome.Quiet, Outcome.sends, Send.toSub]

omit [DecidableEq H] in
theorem quiet_forwardUp (b b' : DdBroker H) (src dst : CStr) (msg : List Frame) :
    (Outcome.done b (forwardUp b' src dst msg)).Quiet := by
  unfold forwardUp
  split <;> simp [Outcome.Quiet, Outcome.sends, Send.toSub]

omit [DecidableEq H] in
theorem quiet_done_nil (b : DdBroker H) : (Outcome.done b []).Quiet :=
  fun _ hx => absurd hx List.not_mem_nil

omit [DecidableEq H] in
theorem quiet_fault_nil : (Outcome.fault [] : Outcome H).Quiet :=
  fun _ hx => absurd hx List.not_mem_nil

theorem carry_quiet (b : DdBroker H) (srcpublic dstpublic : Bool) (src dst : CStr)
    (payload : List Frame) {nodst : Outcome H} (h : nodst.Quiet) :
    (carry env b srcpublic dstpublic src dst payload nodst).Quiet := by
  unfold carry
  split
  · exact quiet_deliver _ _ _ _ _ _
  · split
    · simp [Outcome.Quiet, Outcome.sends, forwardDown, Send.toSub]
    · split
      · exact h
      · exact quiet_forwardUp _ _ _ _ _

/-- The commands of the router but for `SUB` and `UNSUB` say nothing to the sub sockets. -/
theorem quiet_router (b : DdBroker H) (source : Frame) {cmd : Cmd} (msg : List Frame)
    (hsub : cmd ≠ .sub) (hunsub : cmd ≠ .unsub) : (onRouterCmd env b source cmd msg).Quiet := by
  cases cmd with
  | sub => exact absurd rfl hsub
  | unsub => exact absurd rfl hunsub
  | send =>
    cases msg with
    | nil => exact quiet_done_nil _
    | cons cookie msg =>
      show (sCbSend env b source cookie msg).Quiet
      cases hln : hashtableHasLocalNode env b source cookie with
      | none => simp [sCbSend, hln, Outcome.Quiet, Outcome.sends]
      | some o =>
        cases o with
        | none => simp [sCbSend, hln, Outcome.Quiet, Outcome.sends]
        | some ln =>
          cases msg with
          | nil => simp [sCbSend, hln, zmsgPopstr, Outcome.Quiet, Outcome.sends]
          | cons dest payload =>
            rw [sCbSend_eq hln]
            refine carry_quiet _ _ _ _ _ _ ?_
            unfold sendNodst destInvalidRsock
            (repeat' split) <;> simp [Outcome.Quiet, Outcome.sends, Send.toSub]
  | forward =>
    cases msg with
    | nil => exact quiet_done_nil _
    | cons cookie msg =>
      show (sCbForwardRsock env b source cookie msg).Quiet
      unfold sCbForwardRsock
      split
      · exact quiet_fault_nil
      · split
        · exact quiet_fault_nil
        · exact quiet_done_nil _
        · simp only
          split
          · refine carry_quiet _ _ _ _ _ _ ?_
            simp [Outcome.Quiet, Outcome.sends, destInvalidRsock, Send.toSub]
          · exact quiet_done_nil _
  | ping =>
    cases msg with
    | nil => exact quiet_done_nil _
    | cons cookie msg =>
      show (sCbPing env b source cookie).Quiet
      unfold sCbPing
      (repeat' split) <;> simp [Outcome.Quiet, Outcome.sends, Send.toSub]
  | pub =>
    cases msg with
    | nil => exact quiet_done_nil _
    | cons cookie msg =>
      intro x hx
      obtain ⟨_, _, _, _, _, _, -, -, -, -, ⟨_, rfl | rfl⟩ | ⟨_, -, hx⟩⟩ := sCbPub_sends hx
      · rfl
      · rfl
      · obtain ⟨_, -, rfl⟩ := List.mem_map.mp hx
        rfl
  | addlcl =>
    have h : (sCbAddlcl env b source msg).Quiet := by
      unfold sCbAddlcl
      simp only
      (repeat' split) <;> simp [Outcome.Quiet, Outcome.sends, Send.toSub]
    cases msg <;> exact h
  | addbr =>
    have h : (sCbAddbr env b source msg).Quiet := by
      unfold sCbAddbr
      simp only
      (repeat' split) <;> simp [Outcome.Quiet, Outcome.sends, Send.toSub]
    cases msg <;> exact h
  | adddcl =>
    cases msg with
    | nil => exact quiet_done_nil _
    | cons cookie msg =>
      show (sCbAdddcl env b source cookie msg).Quiet
      unfold sCbAdddcl remoteRegFailed
      (repeat' split) <;> try simp [Outcome.Quiet, Outcome.sends, Send.toSub]
      exact quiet_addCliUp _ _ _
  | unreg =>
    cases msg with
    | nil => exact quiet_done_nil _
    | cons cookie msg =>
      show (sCbUnregCli env b source cookie).Quiet
      unfold sCbUnregCli
      (repeat' split) <;> try simp [Outcome.Quiet, Outcome.sends]
      · exact quiet_delCliUp _ _
      · exact quiet_delCliUp _ _
  | unregdcli =>
    cases msg with
    | nil => exact quiet_done_nil _
    | cons cookie msg =>
      show (sCbUnregDistCli env b source cookie msg).Quiet
      unfold sCbUnregDistCli
      (repeat' split) <;> try simp [Outcome.Quiet, Outcome.sends]
      exact quiet_delCliUp _ _
  | challok =>
    show (sCbChallok env b source msg).Quiet
    unfold sCbChallok registerClient remoteRegFailed
    simp only
    (repeat' split) <;> try simp [Outcome.Quiet, Outcome.sends, Send.toSub]
    exact quiet_addCliUp _ _ _
  | unregbr | data | error | regok | pong | chall | subok => cases msg <;> exact quiet_done_nil _

/-- The messages from the higher broker say nothing to the sub sockets. -/
theorem quiet_dealer (b : DdBroker H) (cmd : Cmd) (msg : List Frame) :
    (onDealerCmd env b cmd msg).Quiet := by
  cases cmd with
  | regok =>
    intro x hx
    obtain hx | hx := List.mem_append.mp hx
    · obtain ⟨_, -, hx⟩ := List.mem_flatMap.mp hx
      exact quiet_addCliUp _ _ _ x hx
    · obtain ⟨_, -, hx⟩ := List.mem_flatMap.mp hx
      exact quiet_addCliUp _ _ _ x hx
  | forward =>
    show (sCbForwardDsock env b msg).Quiet
    unfold sCbForwardDsock
    split
    · exact carry_quiet _ _ _ _ _ _ quiet_fault_nil
    · exact quiet_done_nil _
  | chall =>
    show (sCbChall env b msg).Quiet
    unfold sCbChall
    simp only
    (repeat' split) <;> simp [Outcome.Quiet, Outcome.sends, Send.toSub]
  | error =>
    show (sCbHighError env b msg).Quiet
    unfold sCbHighError destInvalidRsock remoteRegFailed
    simp only
    (repeat' split) <;> simp [Outcome.Quiet, Outcome.sends, Send.toSub]
  | send | ping | addlcl | adddcl | addbr | unreg | unregdcli | unregbr | data | pong | challok
  | pub | sub | unsub | subok => exact quiet_done_nil _

omit [DecidableEq H] in
/-- The publications of other brokers say nothing to the sub sockets. -/
theorem quiet_pubs (b : DdBroker H) (msg : List Frame) :
    (sOnSubNMsg b msg).Quiet ∧ (sOnSubSMsg b msg).Quiet := by
  constructor
  · intro x hx
    obtain ⟨_, _, _, -, ⟨_, rfl | rfl⟩ | ⟨_, _, -, hx⟩⟩ := sOnSubNMsg_sends hx
    · rfl
    · rfl
    · obtain ⟨_, -, rfl⟩ := List.mem_map.mp hx
      rfl
  · intro x hx
    obtain ⟨_, _, _, -, ⟨_, rfl | rfl⟩ | ⟨_, _, -, hx⟩⟩ := sOnSubSMsg_sends hx
    · rfl
    · rfl
    · obtain ⟨_, -, rfl⟩ := List.mem_map.mp hx
      rfl

/-- Clients that leave say nothing to the sub sockets. -/
theorem quiet_checkClients (l : List LocalClient) (b : DdBroker H) :
    (checkClients env l b).Quiet := by
  induction l generalizing b with
  | nil => exact quiet_done_nil _
  | cons np rest ih =>
    rw [checkClients]
    split
    · exact ih _
    · have hunreg := @quiet_router _ _ env b np.sockid .unreg [np.cookie.1] (by decide) (by decide)
      intro x hx
      cases hu : sCbUnregCli env b np.sockid np.cookie.1 with
      | fault sends =>
        rw [hu] at hx
        exact hunreg x (by rw [onRouterCmd, hu]; exact hx)
      | done b₁ sends =>
        rw [hu, Outcome.done_andThen, Outcome.sends_after] at hx
        obtain hx | hx := List.mem_append.mp hx
        · exact hunreg x (by rw [onRouterCmd, hu]; exact hx)
        · exact ih b₁ x hx

omit [DecidableEq H] in
theorem quiet_checkBrokers (l : List LocalBroker) (b : DdBroker H) : (checkBrokers l b).Quiet := by
  induction l generalizing b with
  | nil => exact quiet_done_nil _
  | cons np rest ih =>
    rw [checkBrokers]
    split
    · exact ih _
    · intro x hx
      rw [deleteDistClients, Outcome.done_andThen, Outcome.sends_after] at hx
      obtain hx | hx := List.mem_append.mp hx
      · obtain ⟨_, -, hx⟩ := List.mem_flatMap.mp hx
        exact quiet_delCliUp _ _ x hx
      · exact ih _ x hx

/-- An event the clients of this broker cause, not the subscriptions of other brokers. -/
def Event.ofClients : Event → Bool
  | .pubN _ | .pubS _ => false
  | _ => true

/-- A subscription or its end. -/
def Request.subscribes : Request → Bool
  | .sub _ _ _ | .unsub _ _ _ => true
  | _ => false

omit [DecidableEq H] in
theorem quiet_register (b : DdBroker H) : (sRegister b).Quiet ∧ (sHeartbeat b).Quiet := by
  constructor
  · unfold sRegister
    split <;> simp [Outcome.Quiet, Outcome.sends, Send.toSub]
  · simp [sHeartbeat, Outcome.Quiet, Outcome.sends, Send.toSub]

/-- A `SUB` or an `UNSUB` that is not accepted is not told. -/
theorem quiet_refused {source : Frame} {cmd : Cmd} {rest : List Frame}
    (hcmd : cmd = .sub ∨ cmd = .unsub)
    (hr : (routerRequest env b source cmd rest).subscribes = false) :
    (onRouterCmd env b source cmd rest).Quiet := by
  obtain rfl | rfl := hcmd
  · cases rest with
    | nil => exact quiet_done_nil _
    | cons cookie msg =>
      show (sCbSub env b source cookie msg).Quiet
      unfold sCbSub
      split
      · exact quiet_fault_nil
      · exact quiet_done_nil _
      · next ln hln =>
        simp only [routerRequest, acceptedFor_eq_some.mpr hln] at hr
        have hscope : (b.touch ln).scope = b.scope := rfl
        simp only [hscope]
        cases hreq : subRequest b.scope ln msg with
        | none => exact quiet_fault_nil
        | some p => rw [hreq] at hr; cases hr
  · cases rest with
    | nil => exact quiet_done_nil _
    | cons cookie msg =>
      show (sCbUnsub env b source cookie msg).Quiet
      unfold sCbUnsub
      split
      · exact quiet_fault_nil
      · exact quiet_done_nil _
      · next ln hln =>
        simp only [routerRequest, acceptedFor_eq_some.mpr hln] at hr
        have hscope : (b.touch ln).scope = b.scope := rfl
        simp only [hscope]
        cases hreq : subRequest b.scope ln msg with
        | none => exact quiet_fault_nil
        | some p => rw [hreq] at hr; cases hr

/-- **Only a `SUB` and an `UNSUB` of a local client speak to the sub sockets.** -/
theorem quiet_step (he : e.ofClients) (hr : (request env b e).subscribes = false) :
    (step env b e).Quiet := by
  cases e with
  | router msg =>
    show (sOnRouterMsg env b msg).Quiet
    rcases sOnRouterMsg_eq env b msg with ⟨source, cmd, rest, hm, heq⟩ | ⟨-, heq | ⟨_, heq, hsends⟩⟩
    · rw [heq]
      have hrouter : (routerRequest env b source cmd rest).subscribes = false := by
        rwa [request, hm] at hr
      by_cases hcmd : cmd ≠ .sub ∧ cmd ≠ .unsub
      · exact quiet_router b source rest hcmd.1 hcmd.2
      · have hcases : cmd = .sub ∨ cmd = .unsub := by
          rcases not_and_or.mp hcmd with h | h
          · exact Or.inl (not_not.mp h)
          · exact Or.inr (not_not.mp h)
        exact quiet_refused hcases hrouter
    · rw [heq]
      exact quiet_fault_nil
    · rw [heq]
      intro x hx
      cases x with
      | subN _ | subS _ => exact absurd (hsends _ hx) (by simp)
      | rsock _ _ | dsock _ | pubN _ | pubS _ => rfl
  | dealer msg =>
    show (sOnDealerMsg env b msg).Quiet
    rcases sOnDealerMsg_eq env b msg with ⟨cmd, rest, -, heq⟩ | ⟨-, heq | heq⟩
    · rw [heq]
      exact quiet_dealer _ cmd rest
    · rw [heq]
      exact quiet_fault_nil
    · rw [heq]
      exact quiet_done_nil _
  | subN msg => exact (quiet_pubs b msg).1
  | subS msg => exact (quiet_pubs b msg).2
  | pubN msg | pubS msg => cases he
  | register => exact (quiet_register b).1
  | heartbeat => exact (quiet_register b).2
  | checkCliTimeout => exact quiet_checkClients _ b
  | checkBrTimeout => exact quiet_checkBrokers _ b

/-! ## The steps that change the pairs -/

omit [DecidableEq H] in
/-- One pair comes. -/
theorem addedCount_insert (hnew : (s, t) ∉ liveSubs b)
    (hins : liveSubs b' = insert (s, t) (liveSubs b)) (u : CStr) :
    addedCount b b' u = (if t = u then 1 else 0) ∧ addedCount b' b u = 0 := by
  have hadd : liveSubs b' \ liveSubs b = {(s, t)} := by
    rw [hins, Finset.insert_sdiff_cancel hnew]
  have hgone : liveSubs b \ liveSubs b' = ∅ := by
    rw [hins, Finset.sdiff_eq_empty_iff_subset]
    exact Finset.subset_insert _ _
  rw [addedCount, addedCount, hadd, hgone, Finset.filter_singleton]
  constructor
  · split <;> rfl
  · rfl

/-- **What a local step tells the sub sockets** — nothing when the pairs stay, the pair that comes
or the pair that goes. -/
inductive Tells {H : Type} (b b' : DdBroker H) : List Send → Prop
  | quiet {sends : List Send} : (∀ x ∈ sends, x.toSub = false) → liveSubs b' = liveSubs b →
      Tells b b' sends
  | came {s : Frame} {t : CStr} {reply : List Frame} : (s, t) ∉ liveSubs b →
      liveSubs b' = insert (s, t) (liveSubs b) → Tells b b' (.rsock s reply :: tellSubs b 1 t)
  | went {s : Frame} {t : CStr} : (s, t) ∉ liveSubs b' →
      liveSubs b = insert (s, t) (liveSubs b') → Tells b b' (tellSubs b 0 t)

omit [DecidableEq H] in
/-- **A step that tells the pairs is balanced.** -/
theorem Tells.balanced (h : Tells b b' sends) : StepBalanced b b' sends := by
  cases h with
  | quiet hquiet hsame => exact .quiet hquiet hsame
  | came hnew hins =>
    have hadd := addedCount_insert hnew hins
    refine ⟨fun u => ?_, fun u => ?_, fun u => ?_, fun u => ?_⟩ <;>
      rw [List.count_cons_of_ne (by simp)]
    · rw [(count_tellSubs b 1 1 _ u).1, (hadd u).1]
      simp
    · rw [(count_tellSubs b 1 0 _ u).1, (hadd u).2]
      simp
    · rw [(count_tellSubs b 1 1 _ u).2, (hadd u).1]
      simp
    · rw [(count_tellSubs b 1 0 _ u).2, (hadd u).2]
      simp
  | went hgone hins =>
    have hadd := addedCount_insert hgone hins
    refine ⟨fun u => ?_, fun u => ?_, fun u => ?_, fun u => ?_⟩
    · rw [(count_tellSubs b 0 1 _ u).1, (hadd u).2]
      simp
    · rw [(count_tellSubs b 0 0 _ u).1, (hadd u).1]
      simp
    · rw [(count_tellSubs b 0 1 _ u).2, (hadd u).2]
      simp
    · rw [(count_tellSubs b 0 0 _ u).2, (hadd u).1]
      simp

/-- Every client the timeouts remove has no topics. -/
def expireQuiet {H : Type} (b : DdBroker H) : Bool :=
  b.lclCliHt.nodes.all fun np => b.cliTimeout np < 3 || topicsOf b np.sockid = []

/-- **A client leaves without topics.** -/
def Request.quietDeparture {H : Type} (b : DdBroker H) : Request → Bool
  | .leave _ sockid => decide (topicsOf b sockid = [])
  | .expel ln => decide (topicsOf b ln.sockid = [])
  | .expire => expireQuiet b
  | _ => true

variable (env) in
/-- **An event keeps the sub sockets in step** — it keeps the stores together, and a client that
leaves has no topics. -/
def propagationSafe (b : DdBroker H) (e : Event) : Bool :=
  storesSafe env b e && (request env b e).quietDeparture b

section

variable (hinj : Function.Injective env.xxh32) (hok : TablesOk env b)

include hinj hok

/-- A client without topics leaves the pairs as they are. -/
theorem topicsOf_removeClient (htop : topicsOf b s = []) {c : LocalClient}
    (h : removeClient env b s c = some b') (s' : Frame) : topicsOf b' s' = topicsOf b s' := by
  obtain ⟨⟨b₁, n⟩, hb, rfl⟩ := Option.map_eq_some_iff.mp h
  refine (hok.topicsOf_removeSubscriptions hinj hb s').trans ?_
  split
  · next hs => rw [hs, htop]
  · rfl

/-- The timeouts of clients without topics leave the pairs as they are. -/
theorem topicsOf_checkClients {l : List LocalClient} (hnd : l.Nodup)
    (hquiet : ∀ np ∈ l, b.cliTimeout np < 3 ∨ topicsOf b np.sockid = [])
    (h : checkClients env l b = .done b' sends) (s : Frame) : topicsOf b' s = topicsOf b s := by
  induction l generalizing b sends with
  | nil =>
    cases h
    rfl
  | cons np rest ih =>
    rw [List.nodup_cons] at hnd
    rw [checkClients] at h
    split at h
    · have hok₁ : TablesOk env { b with
          cliTimeout := fun c => if c = np then b.cliTimeout np + 1 else b.cliTimeout c } :=
        { hok with }
      refine (ih hok₁ hnd.2 (fun c hc => ?_) h).trans rfl
      have hne : c ≠ np := fun he => hnd.1 (he ▸ hc)
      exact (hquiet c (List.mem_cons_of_mem _ hc)).imp_left fun hlt => by
        show (if c = np then _ else _) < 3
        rwa [if_neg hne]
    · next hge =>
      obtain ⟨b₁, s₁, s₂, h₁, h₂, -⟩ := Outcome.andThen_eq_done.mp h
      have htop := (hquiet np List.mem_cons_self).resolve_left hge
      obtain ⟨hsame, htime⟩ : (∀ s, topicsOf b₁ s = topicsOf b s) ∧
          b₁.cliTimeout = b.cliTimeout := by
        obtain ⟨-, rfl, -⟩ | ⟨c, -, hr, -⟩ := sCbUnregCli_eq_done h₁
        · exact ⟨fun _ => rfl, rfl⟩
        · refine ⟨topicsOf_removeClient hinj hok htop hr, ?_⟩
          obtain ⟨⟨b₂, n⟩, hb, rfl⟩ := Option.map_eq_some_iff.mp hr
          obtain rfl | ⟨root, rfl⟩ := removeSubscriptions_eq hb <;> rfl
      rw [ih (hok.unregCli hinj h₁) hnd.2 (fun c hc => ?_) h₂, hsame]
      rw [htime, hsame]
      exact hquiet c (List.mem_cons_of_mem _ hc)

/-- **A request that is neither a subscription nor the end of one leaves the pairs as they are**,
when no client leaves with topics. -/
theorem topicsOf_effect {r : Request} (hr : r.subscribes = false) (hquiet : r.quietDeparture b)
    (heff : r.effect env b = some b') (s : Frame) : topicsOf b' s = topicsOf b s := by
  cases r with
  | none =>
    cases heff
    rfl
  | register sockid hash ten clientName =>
    obtain ⟨o, ho, rfl⟩ := Option.map_eq_some_iff.mp heff
    cases o with
    | none => rfl
    | some b₁ =>
      obtain ⟨-, -, -, -, rfl⟩ := insertLocalClient_eq ho
      rfl
  | sub ln sockid key => cases hr
  | unsub ln sockid key => cases hr
  | leave ln sockid => exact topicsOf_removeClient hinj hok (of_decide_eq_true hquiet) heff s
  | expel ln => exact topicsOf_removeClient hinj hok (of_decide_eq_true hquiet) heff s
  | expire =>
    obtain ⟨sends, hcheck⟩ := Outcome.broker_eq_some.mp heff
    refine topicsOf_checkClients hinj hok hok.lclNodup.of_map (fun np hnp => ?_) hcheck s
    simpa using List.all_eq_true.mp hquiet np hnp
  | addBroker sockid cookie =>
    obtain ⟨o, ho, rfl⟩ := Option.map_eq_some_iff.mp heff
    split <;> rfl
  | addDist sockid name dist =>
    cases heff
    rfl
  | delDist sockid name =>
    cases heff
    split <;> rfl
  | dropDist name =>
    cases heff
    split <;> rfl
  | expireBrokers =>
    obtain ⟨sends, hcheck⟩ := Outcome.broker_eq_some.mp heff
    exact checkBrokers_induction (P := fun b₁ => topicsOf b₁ s = topicsOf b s)
      (fun _ _ h => h) (fun _ _ h => h) rfl hcheck

/-- **A `SUB` the trie is safe for** tells a pair that comes. -/
theorem tells_sub (hst : StoresOk b) (hreq : request env b e = .sub ln s t)
    (hsafe : (Op.subscribe t.bytes s).safe b.topicsTrie) (hok' : TablesOk env b')
    (hs : step env b e = .done b' sends) : Tells b b' sends := by
  obtain ⟨reply, hstep⟩ := step_sub hreq
  rw [hstep] at hs
  cases hins : insertSubscription env b s t with
  | none => rw [hins] at hs; cases hs
  | some p =>
    have htop := hok.topicsOf_insert hinj hins
    obtain ⟨ht, hp⟩ := insertSubscription_frame hins
    obtain ⟨root, n, hroot, -, hn, -⟩ := nnTrieSubscribe_spec hst.holds.shaped t.nul_free hsafe
    have hroot' : nnTrieSubscribe p.1.topicsTrie t.bytes s = some (some root, n) := by
      rw [hp]
      exact hroot
    rw [hst.holds.mem, mem_pairsOf] at hn
    rw [hins] at hs
    simp only [hroot'] at hs
    cases hs
    have htop' : ∀ s', topicsOf { p.1.touch ln with topicsTrie := some root } s' =
        if s' = s ∧ t ∉ topicsOf b s then topicsOf b s' ++ [t] else topicsOf b s' := htop
    by_cases hin : t ∈ topicsOf b s
    · rw [if_neg fun h2 => hn.mp h2 hin]
      refine .quiet (fun x hx => ?_) (liveSubs_congr hok hok' fun s' => ?_)
      · rw [List.mem_singleton.mp hx]
        rfl
      · rw [htop', if_neg fun h => h.2 hin]
    · rw [if_pos (hn.mpr hin)]
      have htell : tellSubs (p.1.touch ln) 1 t = tellSubs b 1 t := by
        rw [hp]
        rfl
      rw [htell]
      refine .came (fun h => hin ((hok.mem_liveSubs s t).mp h)) ?_
      ext ⟨s', t'⟩
      rw [hok'.mem_liveSubs, htop', Finset.mem_insert, hok.mem_liveSubs, Prod.mk.injEq]
      by_cases hs' : s' = s
      · simp [hs', hin, or_comm]
      · simp [hs']

/-- **An `UNSUB` of the only topic, or of none,** tells the pair that goes. -/
theorem tells_unsub (hreq : request env b e = .unsub ln s t)
    (hsafe : topicsOf b s = [] ∨ topicsOf b s = [t]) (hok' : TablesOk env b')
    (hs : step env b e = .done b' sends) : Tells b b' sends := by
  rw [step_unsub hreq] at hs
  cases hrem : removeSubscription env b s t with
  | none => rw [hrem] at hs; cases hs
  | some p =>
    have hremoved : removeSubscription env b s t = some (p.1, p.2) := hrem
    have htop := topicsOf_unsub hinj hok hremoved
    rw [hrem] at hs
    cases hs
    have htop' : ∀ s', topicsOf (p.1.touch ln) s' = if s' = s then [] else topicsOf b s' := htop
    have hcount : p.2 = (topicsOf b s).length := by
      obtain ⟨hnil, heq⟩ | heq := removeSubscription_cases hinj hok s t
      · rw [heq] at hrem
        cases hrem
        rw [hnil]
        rfl
      · rw [heq] at hrem
        obtain ⟨root, -, h⟩ := Option.map_eq_some_iff.mp hrem
        rw [← h]
    obtain hnil | hone := hsafe
    · rw [if_pos (by rw [hcount, hnil]; rfl)]
      refine .quiet (fun x hx => absurd hx List.not_mem_nil)
        (liveSubs_congr hok hok' fun s' => ?_)
      rw [htop']
      split
      · next hs' => rw [hs', hnil]
      · rfl
    · rw [if_neg (by rw [hcount, hone]; exact one_ne_zero)]
      have htell : tellSubs (p.1.touch ln) 0 t = tellSubs b 0 t := by
        obtain hp | ⟨root, hp⟩ := removeSubscription_eq hremoved <;>
          (rw [hp]; rfl)
      rw [htell]
      refine .went (s := s) (fun h => ?_) ?_
      · rw [hok'.mem_liveSubs, htop', if_pos rfl] at h
        exact absurd h List.not_mem_nil
      · ext ⟨s', t'⟩
        rw [hok.mem_liveSubs, Finset.mem_insert, hok'.mem_liveSubs, htop', Prod.mk.injEq]
        by_cases hs' : s' = s
        · simp [hs', hone]
        · simp [hs']

/-- **Every step that keeps the sub sockets in step tells the pairs.** -/
theorem tells_step (hst : StoresOk b) (he : e.ofClients) (hsafe : propagationSafe env b e)
    (hs : step env b e = .done b' sends) : Tells b b' sends := by
  have hok' := hok.step hinj hs
  rw [propagationSafe, storesSafe, Bool.and_eq_true] at hsafe
  obtain ⟨hstores, hquiet⟩ := hsafe
  cases hsub : (request env b e).subscribes with
  | false =>
    obtain ⟨b₁, heff, hsame⟩ := step_effect hs
    refine .quiet (fun x hx => quiet_step he hsub x (by rw [hs]; exact hx))
      (liveSubs_congr hok hok' fun s' => ?_)
    rw [topicsOf, hsame.subscribeHt]
    exact topicsOf_effect hinj hok hsub hquiet heff s'
  | true =>
    cases hreq : request env b e with
    | sub ln s t =>
      rw [hreq] at hstores
      exact tells_sub hinj hok hst hreq hstores hok' hs
    | unsub ln s t =>
      rw [hreq] at hstores
      refine tells_unsub hinj hok hreq ?_ hok' hs
      simp only [Request.storesSafe, Bool.or_eq_true, decide_eq_true_eq, Bool.and_eq_true]
        at hstores
      exact hstores.imp_right And.left
    | _ => rw [hreq] at hsub; cases hsub

end

/-! ## Runs -/

variable (env) in
/-- What the events of the local clients sent. -/
def localFrames (b : DdBroker H) : List Event → List Send
  | [] => []
  | e :: es => localFrames b es ++
    match runEvents env b es with
    | some b => if e.ofClients then (step env b e).sends else []
    | none => []

/-- What a local step adds, any other step leaves. -/
theorem pairs_kept (hinj : Function.Injective env.xxh32) (hok : TablesOk env b)
    (he : e.ofClients = false) (hs : step env b e = .done b' sends) (t : CStr) :
    liveCount b' t = liveCount b t := by
  have hok' := hok.step hinj hs
  obtain ⟨b₁, heff, hsame⟩ := step_effect hs
  have htop : ∀ s, topicsOf b' s = topicsOf b s := fun s => by
    rw [topicsOf, hsame.subscribeHt]
    cases e with
    | pubN msg | pubS msg => cases heff; rfl
    | _ => cases he
  rw [liveCount, liveSubs_congr hok hok' htop, liveCount]

/-- **Subscriptions are told to the sub sockets one by one** — in every run whose steps keep them in
step each further step is balanced, and on the socket to the south the frames with a 1 exceed those
with a 0 by the live subscriptions. -/
theorem propagation_balanced (hinj : Function.Injective env.xxh32) {cfg : Config} {es : List Event}
    {b : DdBroker H} (h : RunIf env cfg (propagationSafe env) es b) :
    (∀ e b' sends, e.ofClients → propagationSafe env b e → step env b e = .done b' sends →
      StepBalanced b b' sends) ∧
    ∀ t, (localFrames env (ddBrokerNew H cfg) es).count (.subS (subFrame 1 t)) =
      (localFrames env (ddBrokerNew H cfg) es).count (.subS (subFrame 0 t)) + liveCount b t := by
  have hcond : ∀ (b : DdBroker H) e, propagationSafe env b e → storesSafe env b e := fun b e h => by
    rw [propagationSafe, Bool.and_eq_true] at h
    exact h.1
  refine ⟨fun e b' sends he hsafe hs => (tells_step hinj (Reachable.tablesOk hinj ⟨es, h.run⟩)
    (h.storesOk hinj hcond) he hsafe hs).balanced, fun t => ?_⟩
  induction h with
  | init => rfl
  | @step es b b' e sends hrun _ hc hs ih =>
    have hok := Reachable.tablesOk hinj ⟨es, hrun.run⟩
    simp only [localFrames, hrun.run.runEvents, hs, Outcome.sends, List.count_append]
    cases he : e.ofClients with
    | false =>
      rw [if_neg Bool.false_ne_true, List.count_nil, List.count_nil, ih,
        pairs_kept hinj hok he hs t]
      rfl
    | true =>
      have hbal := (tells_step hinj hok (hrun.storesOk hinj hcond) he hc hs).balanced
      rw [if_pos rfl, hbal.south, hbal.southGone, ih]
      have hlive := liveCount_add b b' t
      omega

/-! ### A client that comes and goes -/

/-- A client subscribes to `x`, ends the subscription and leaves. -/
def topicAndGone : List Event :=
  .router ([1, 2, 3, 4, 5] :: ddMsg .unreg [(cookieOf 65).1]) :: unsubX :: twoTopics.tail

/-- A client that ends its subscription before it leaves. -/
theorem propagation_balanced_topicAndGone : ∃ b : DdBroker (List UInt8),
    runEvents plainEnv (ddBrokerNew _ demoConfig) topicAndGone = some b ∧
    (∀ e b' sends, e.ofClients → propagationSafe plainEnv b e →
      step plainEnv b e = .done b' sends → StepBalanced b b' sends) ∧
    ∀ t, (localFrames plainEnv (ddBrokerNew _ demoConfig) topicAndGone).count
        (.subS (subFrame 1 t)) =
      (localFrames plainEnv (ddBrokerNew _ demoConfig) topicAndGone).count
        (.subS (subFrame 0 t)) + liveCount b t := by
  have hsome : (runEvents plainEnv (ddBrokerNew _ demoConfig) topicAndGone).isSome := by
    decide +kernel
  obtain ⟨b, hb⟩ := Option.isSome_iff_exists.mp hsome
  exact ⟨b, hb, propagation_balanced Function.injective_id
    (.of_runEvents (by decide +kernel) hb)⟩

/-- The client of `twoTopics` leaves with its one topic. -/
def oneTopicGone : List Event :=
  .router ([1, 2, 3, 4, 5] :: ddMsg .unreg [(cookieOf 65).1]) :: twoTopics.tail

theorem oneTopicGone_frames : (runEvents plainEnv (ddBrokerNew _ demoConfig) oneTopicGone).map
    (fun b => (liveCount b (text "a.x"),
      (localFrames plainEnv (ddBrokerNew _ demoConfig) oneTopicGone).count
        (.subS (subFrame 1 (text "a.x"))),
      (localFrames plainEnv (ddBrokerNew _ demoConfig) oneTopicGone).count
        (.subS (subFrame 0 (text "a.x"))))) = some (0, 1, 0) := by
  decide +kernel

/-- **Subscriptions are not always told** — a client leaves with a topic, and no frame says so. -/
theorem not_propagation_balanced : ¬ ∀ (H : Type) [DecidableEq H] (env : Env H),
    Function.Injective env.xxh32 → ∀ (cfg : Config) (es : List Event) (b : DdBroker H),
    Run env cfg es b → ∀ t,
      (localFrames env (ddBrokerNew H cfg) es).count (.subS (subFrame 1 t)) =
        (localFrames env (ddBrokerNew H cfg) es).count (.subS (subFrame 0 t)) + liveCount b t := by
  intro hall
  obtain ⟨b, hb, hfacts⟩ := Option.map_eq_some_iff.mp oneTopicGone_frames
  simp only [Prod.mk.injEq] at hfacts
  have hcount := hall _ plainEnv Function.injective_id demoConfig _ b (.of_runEvents hb)
    (text "a.x")
  rw [hfacts.1, hfacts.2.1, hfacts.2.2] at hcount
  cases hcount

end DoubleDecker
