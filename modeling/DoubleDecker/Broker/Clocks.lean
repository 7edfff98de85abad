import DoubleDecker.Broker.Routing
import DoubleDecker.Broker.Isolation

/-!
# Broker/Clocks — the timeout of a client

Every entry of `lcl_cli_ht` counts the ticks of `s_check_cli_timeout`.  A step that is no tick sets
the count of one entry to 0, that of the client it registers or whose `PING`, `SEND`, `PUB`, `SUB`
or `UNSUB` it carries out, and leaves all others (`step_cliTimeout`).  In every run the count of an
entry is the number of ticks since then (`Run.cliTimeout_eq`).
-/

namespace DoubleDecker

open Trie

variable {H : Type} [DecidableEq H] {env : Env H} {b b' : DdBroker H} {e : Event}
  {sends : List Send}

/-! ## Who starts again -/

/-- The commands that set the timeout of their sender to 0. -/
def Cmd.renews : Cmd → Bool
  | .send | .pub | .sub | .unsub | .ping => true
  | _ => false

variable (env) in
/-- The client whose `PING`, `SEND`, `PUB`, `SUB` or `UNSUB` is accepted. -/
def acceptedOf (b : DdBroker H) : Event → Option LocalClient
  | .router msg =>
    match routerCmd msg with
    | some (source, cmd, cookie :: _) =>
      if cmd.renews then acceptedFor env b source cookie else none
    | _ => none
  | _ => none

variable (env) in
/-- The event enters the client. -/
def enters (b : DdBroker H) (e : Event) (c : LocalClient) : Bool :=
  match step env b e with
  | .done b' _ => decide (c ∉ b.lclCliHt.nodes ∧ c ∈ b'.lclCliHt.nodes)
  | .fault _ => false

variable (env) in
/-- **The client starts again**: it is registered, or a command of it is accepted. -/
def renewed (b : DdBroker H) (e : Event) (c : LocalClient) : Bool :=
  enters env b e c || decide (acceptedOf env b e = some c)

/-! ## What a handler does to the timeouts -/

/-- The timeouts after the outcome, when it is a state. -/
def Outcome.Clocks {H : Type} (o : Outcome H) (f : LocalClient → Nat) : Prop :=
  ∀ b' sends, o = .done b' sends → b'.cliTimeout = f

omit [DecidableEq H] in
theorem clocks_fault (f : LocalClient → Nat) (sends : List Send) :
    (Outcome.fault sends : Outcome H).Clocks f := fun _ _ h => by cases h

omit [DecidableEq H] in
theorem clocks_done (b' : DdBroker H) (sends : List Send) :
    (Outcome.done b' sends).Clocks b'.cliTimeout := fun _ _ h => by
  cases h
  rfl

/-- The timeouts after a message of the client found, if any. -/
def clocksAfter {H : Type} (b : DdBroker H) (c : Option LocalClient) : LocalClient → Nat :=
  fun x => if c = some x then 0 else b.cliTimeout x

omit [DecidableEq H] in
@[simp] theorem clocksAfter_none (b : DdBroker H) : clocksAfter b none = b.cliTimeout := rfl

omit [DecidableEq H] in
@[simp] theorem clocksAfter_some (b : DdBroker H) (c : LocalClient) :
    clocksAfter b (some c) = (b.touch c).cliTimeout := by
  funext x
  simp [clocksAfter, DdBroker.touch, eq_comm]

theorem removeSubscriptions_clocks {s : Frame} {n : Nat}
    (h : removeSubscriptions env b s = some (b', n)) : b'.cliTimeout = b.cliTimeout := by
  obtain rfl | ⟨root, rfl⟩ := removeSubscriptions_eq h <;> rfl

theorem removeSubscription_clocks {s : Frame} {t : CStr} {n : Nat}
    (h : removeSubscription env b s t = some (b', n)) : b'.cliTimeout = b.cliTimeout := by
  obtain rfl | ⟨root, rfl⟩ := removeSubscription_eq h <;> rfl

omit [DecidableEq H] in
theorem clocks_deliver (b : DdBroker H) (ln : LocalClient) (srcpublic dstpublic : Bool) (src : CStr)
    (msg : List Frame) : (deliver b ln srcpublic dstpublic src msg).Clocks b.cliTimeout := by
  unfold deliver
  (repeat' split) <;> first
    | exact clocks_fault _ _
    | exact clocks_done _ _

theorem clocks_carry (b : DdBroker H) (srcpublic dstpublic : Bool) (src dst : CStr)
    (payload : List Frame) {nodst : Outcome H} (hnodst : nodst.Clocks b.cliTimeout) :
    (carry env b srcpublic dstpublic src dst payload nodst).Clocks b.cliTimeout := by
  unfold carry
  split
  · exact clocks_deliver b _ _ _ _ _
  · split
    · exact clocks_done _ _
    · split
      · exact hnodst
      · exact clocks_done _ _

theorem clocks_unregCli (b : DdBroker H) (s cookie : Frame) :
    (sCbUnregCli env b s cookie).Clocks b.cliTimeout := by
  intro b' sends h
  obtain ⟨-, rfl, -⟩ | ⟨c, -, hr, -⟩ := sCbUnregCli_eq_done h
  · rfl
  · obtain ⟨⟨b₁, n⟩, hb, rfl⟩ := Option.map_eq_some_iff.mp hr
    exact (removeSubscriptions_clocks hb : b₁.cliTimeout = _)

/-- **A command that renews** sets the timeout of the client it is accepted for. -/
theorem clocks_renews (b : DdBroker H) (source cookie : Frame) (msg : List Frame) {cmd : Cmd}
    (hcmd : cmd.renews) : (onRouterCmd env b source cmd (cookie :: msg)).Clocks
      (clocksAfter b (acceptedFor env b source cookie)) := by
  unfold acceptedFor
  cases hln : hashtableHasLocalNode env b source cookie with
  | none =>
    cases cmd with
    | send | pub | sub | unsub | ping =>
      simp only [onRouterCmd, sCbSend, sCbPub, sCbSub, sCbUnsub, sCbPing, hln]
      exact clocks_fault _ _
    | _ => cases hcmd
  | some o =>
    cases o with
    | none =>
      rw [Option.join_some, clocksAfter_none]
      cases cmd with
      | ping =>
        simp only [onRouterCmd, sCbPing, hln]
        (repeat' split) <;> first
          | exact clocks_fault _ _
          | exact clocks_done _ _
      | send | pub | sub | unsub =>
        simp only [onRouterCmd, sCbSend, sCbPub, sCbSub, sCbUnsub, hln]
        exact clocks_done _ _
      | _ => cases hcmd
    | some ln =>
      rw [Option.join_some, clocksAfter_some]
      cases cmd with
      | ping =>
        simp only [onRouterCmd, sCbPing, hln]
        exact clocks_done _ _
      | send =>
        show (sCbSend env b source cookie msg).Clocks _
        cases msg with
        | nil =>
          simp only [sCbSend, hln, zmsgPopstr]
          exact clocks_fault _ _
        | cons dest payload =>
          rw [sCbSend_eq hln]
          refine clocks_carry (b.touch ln) _ _ _ _ _ ?_
          unfold sendNodst
          (repeat' split) <;> first
            | exact clocks_fault _ _
            | exact clocks_done _ _
      | pub =>
        show (sCbPub env b source cookie msg).Clocks _
        unfold sCbPub
        simp only [hln]
        (repeat' split) <;> first
          | exact clocks_fault _ _
          | exact clocks_done _ _
      | sub =>
        show (sCbSub env b source cookie msg).Clocks _
        unfold sCbSub
        simp only [hln]
        split
        · exact clocks_fault _ _
        · split
          · exact clocks_fault _ _
          · next hins =>
            obtain ⟨ht, rfl⟩ := insertSubscription_frame hins
            split
            · exact clocks_fault _ _
            · exact clocks_done _ _
      | unsub =>
        show (sCbUnsub env b source cookie msg).Clocks _
        unfold sCbUnsub
        simp only [hln]
        split
        · exact clocks_fault _ _
        · split
          · exact clocks_fault _ _
          · next hrem =>
            rw [← removeSubscription_clocks hrem]
            exact clocks_done _ _
      | _ => cases hcmd

/-- The other commands that register no client leave the timeouts. -/
theorem clocks_router (b : DdBroker H) (source : Frame) {cmd : Cmd} (msg : List Frame)
    (hcmd : cmd.renews = false) (hchallok : cmd ≠ .challok) :
    (onRouterCmd env b source cmd msg).Clocks b.cliTimeout := by
  cases cmd with
  | send | pub | sub | unsub | ping => cases hcmd
  | challok => exact absurd rfl hchallok
  | forward =>
    cases msg with
    | nil => exact clocks_done _ _
    | cons cookie msg =>
      show (sCbForwardRsock env b source cookie msg).Clocks _
      unfold sCbForwardRsock
      split
      · exact clocks_fault _ _
      · split
        · exact clocks_fault _ _
        · exact clocks_done _ _
        · simp only
          split
          · exact clocks_carry (b.touchBroker _) _ _ _ _ _ (clocks_done _ _)
          · exact clocks_done _ _
  | addlcl =>
    have heq : onRouterCmd env b source .addlcl msg = sCbAddlcl env b source msg := by
      cases msg <;> rfl
    rw [heq, sCbAddlcl]
    (repeat' split) <;> exact clocks_done _ _
  | addbr =>
    have heq : onRouterCmd env b source .addbr msg = sCbAddbr env b source msg := by
      cases msg <;> rfl
    rw [heq, sCbAddbr]
    (repeat' split) <;> first
      | exact clocks_fault _ _
      | exact clocks_done _ _
  | adddcl =>
    cases msg with
    | nil => exact clocks_done _ _
    | cons cookie msg =>
      show (sCbAdddcl env b source cookie msg).Clocks _
      unfold sCbAdddcl
      (repeat' split) <;> first
        | exact clocks_fault _ _
        | exact clocks_done _ _
  | unreg =>
    cases msg with
    | nil => exact clocks_done _ _
    | cons cookie msg => exact clocks_unregCli b source cookie
  | unregdcli =>
    cases msg with
    | nil => exact clocks_done _ _
    | cons cookie msg =>
      show (sCbUnregDistCli env b source cookie msg).Clocks _
      unfold sCbUnregDistCli
      (repeat' split) <;> first
        | exact clocks_fault _ _
        | exact clocks_done _ _
  | unregbr | data | error | regok | pong | chall | subok =>
    cases msg <;> exact clocks_done _ _

/-- The messages from the higher broker leave the timeouts. -/
theorem clocks_dealer (b : DdBroker H) (cmd : Cmd) (msg : List Frame) :
    (onDealerCmd env b cmd msg).Clocks b.cliTimeout := by
  cases cmd with
  | regok => exact clocks_done _ _
  | forward =>
    show (sCbForwardDsock env b msg).Clocks _
    unfold sCbForwardDsock
    split
    · exact clocks_carry b _ _ _ _ _ (clocks_fault _ _)
    · exact clocks_done _ _
  | chall =>
    show (sCbChall env b msg).Clocks _
    unfold sCbChall
    simp only
    (repeat' split) <;> first
      | exact clocks_fault _ _
      | exact clocks_done _ _
  | error =>
    show (sCbHighError env b msg).Clocks _
    unfold sCbHighError
    simp only
    (repeat' split) <;> first
      | exact clocks_fault _ _
      | (have hsame := removeSubscriptions_clocks ‹_›
         exact hsame ▸ clocks_done _ _)
      | exact clocks_done _ _
  | send | ping | addlcl | adddcl | addbr | unreg | unregdcli | unregbr | data | pong | challok
  | pub | sub | unsub | subok => exact clocks_done _ _

omit [DecidableEq H] in
theorem clocks_pubRemotely (b : DdBroker H) (pubtopic name : CStr) (msg : List Frame) :
    (pubRemotely b pubtopic name msg).Clocks b.cliTimeout := by
  unfold pubRemotely
  simp only
  (repeat' split) <;> first
    | exact clocks_fault _ _
    | exact clocks_done _ _

omit [DecidableEq H] in
/-- The publications of other brokers leave the timeouts. -/
theorem clocks_pubs (b : DdBroker H) (msg : List Frame) :
    (sOnSubNMsg b msg).Clocks b.cliTimeout ∧ (sOnSubSMsg b msg).Clocks b.cliTimeout := by
  constructor
  · unfold sOnSubNMsg
    simp only
    split
    · exact clocks_done _ _
    · split
      · intro b' sends h
        obtain ⟨b₁, s₁, s₂, h₁, h₂, -⟩ := Outcome.andThen_eq_done.mp h
        cases h₂
        exact clocks_pubRemotely b _ _ _ _ _ h₁
      · exact clocks_fault _ _
  · unfold sOnSubSMsg
    simp only
    split
    · intro b' sends h
      obtain ⟨b₁, s₁, s₂, h₁, h₂, -⟩ := Outcome.andThen_eq_done.mp h
      have hclocks := clocks_pubRemotely b _ _ _ _ _ h₁
      split at h₂
      · cases h₂
      · split at h₂
        · cases h₂
        · cases h₂
          exact hclocks
    · exact clocks_fault _ _

/-! ## A step -/

/-- **A registration** enters a client that was not there, with the timeout 0. -/
theorem clocks_register (hinj : Function.Injective env.xxh32) (hok : TablesOk env b) {s : Frame}
    {ten : DdTenant} {clientName : CStr}
    (h : registerClient env b s ten clientName = .done b' sends) :
    (b'.cliTimeout = b.cliTimeout ∧ b'.lclCliHt = b.lclCliHt) ∨
      ∃ np, np ∉ b.lclCliHt.nodes ∧ b'.cliTimeout = (b.touch np).cliTimeout ∧
        ∀ c, c ∈ b'.lclCliHt.nodes ↔ c ∈ b.lclCliHt.nodes ∨ c = np := by
  unfold registerClient at h
  split at h
  · cases h
  · cases h
    exact .inl ⟨rfl, rfl⟩
  · next hins =>
    obtain ⟨-, -, hlocal, -, rfl⟩ := insertLocalClient_eq hins
    cases h
    refine .inr ⟨⟨clientName, joined 255 ten.name clientName, ten.name, ten.cookie, s⟩,
      fun hmem => ?_, rfl, fun c => ?_⟩
    · have hself := hok.hasLocal_self hinj hmem
      rw [hlocal] at hself
      cases hself
    · rw [Lfht.nodes_add, List.mem_append, List.mem_singleton]

/-- A `CHALLOK` registers a client, or leaves the clients and their timeouts. -/
theorem clocks_challok (hinj : Function.Injective env.xxh32) (hok : TablesOk env b) {s : Frame}
    {msg : List Frame} (h : sCbChallok env b s msg = .done b' sends) :
    (b'.cliTimeout = b.cliTimeout ∧ b'.lclCliHt = b.lclCliHt) ∨
      ∃ np, np ∉ b.lclCliHt.nodes ∧ b'.cliTimeout = (b.touch np).cliTimeout ∧
        ∀ c, c ∈ b'.lclCliHt.nodes ↔ c ∈ b.lclCliHt.nodes ∨ c = np := by
  unfold sCbChallok at h
  simp only at h
  (repeat' split at h) <;> first
    | exact clocks_register hinj hok h
    | (cases h; exact .inl ⟨rfl, rfl⟩)
    | cases h

theorem enters_eq (h : step env b e = .done b' sends) (c : LocalClient) :
    enters env b e c = decide (c ∉ b.lclCliHt.nodes ∧ c ∈ b'.lclCliHt.nodes) := by
  rw [enters, h]

/-- An event that asks for no registration enters no client. -/
theorem enters_of_request (h : step env b e = .done b' sends)
    (hreq : ∀ s hash ten name, request env b e ≠ .register s hash ten name) (c : LocalClient) :
    enters env b e c = false := by
  rw [enters_eq h, decide_eq_false_iff_not]
  rintro ⟨hold, hnew⟩
  obtain hmem | ⟨s, hash, ten, name, hr, -⟩ := (step_frame h).clients c hnew
  · exact hold hmem
  · exact hreq _ _ _ _ hr

/-- The timeouts after an event that is neither a tick nor a `CHALLOK`. -/
theorem step_clocks (he : e ≠ .checkCliTimeout)
    (hchallok : ∀ msg s rest, e = .router msg → routerCmd msg ≠ some (s, .challok, rest)) :
    (step env b e).Clocks (clocksAfter b (acceptedOf env b e)) := by
  intro b' sends h
  cases e with
  | router msg =>
    rcases sOnRouterMsg_eq env b msg with ⟨source, cmd, rest, hmsg, heq⟩ | ⟨hmsg, heq | ⟨_, heq, -⟩⟩
    · have hcmd : cmd ≠ .challok := fun hc => hchallok msg source rest rfl (hc ▸ hmsg)
      have h : onRouterCmd env b source cmd rest = .done b' sends := heq.symm.trans h
      by_cases hrenews : cmd.renews = true
      · cases rest with
        | nil => cases cmd <;> first | cases hrenews <;> cases h <;> simp [acceptedOf, hmsg]
        | cons cookie rest =>
          rw [acceptedOf, hmsg]
          simp only [if_pos hrenews]
          exact clocks_renews b source cookie rest hrenews _ _ h
      · have hnone : acceptedOf env b (.router msg) = none := by
          cases rest <;> simp [acceptedOf, hmsg, hrenews]
        rw [hnone]
        exact clocks_router b source rest (by simpa using hrenews) hcmd _ _ h
    · cases heq.symm.trans h
    · cases heq.symm.trans h
      simp [acceptedOf, hmsg]
  | dealer msg =>
    rcases sOnDealerMsg_eq env b msg with ⟨cmd, rest, hm, heq⟩ | ⟨-, heq | heq⟩
    · exact clocks_dealer { b with timeout := 0 } cmd rest _ _ (heq.symm.trans h)
    · cases heq.symm.trans h
    · cases heq.symm.trans h
      rfl
  | subN msg => exact (clocks_pubs b msg).1 _ _ h
  | subS msg => exact (clocks_pubs b msg).2 _ _ h
  | pubN msg =>
    rw [show step env b (.pubN msg) = sOnPubNMsg b msg from rfl, sOnPubNMsg] at h
    split at h
    · cases h
    · split at h <;> cases h
      rfl
  | pubS msg =>
    rw [show step env b (.pubS msg) = sOnPubSMsg b msg from rfl, sOnPubSMsg] at h
    split at h
    · cases h
    · split at h <;> cases h
      rfl
  | register =>
    rw [show step env b .register = sRegister b from rfl, sRegister] at h
    split at h <;> cases h <;> rfl
  | heartbeat =>
    rw [show step env b .heartbeat = sHeartbeat b from rfl, sHeartbeat] at h
    cases h
    split <;> rfl
  | checkCliTimeout => exact absurd rfl he
  | checkBrTimeout =>
    exact checkBrokers_induction (P := fun b₁ => b₁.cliTimeout = b.cliTimeout) (fun _ _ hb => hb)
      (fun _ _ hb => hb) rfl h

/-- **A step that is no tick** sets the timeout of the client that starts again to 0, and leaves all
others. -/
theorem step_cliTimeout (hinj : Function.Injective env.xxh32) (hok : TablesOk env b)
    (he : e ≠ .checkCliTimeout) (h : step env b e = .done b' sends) (c : LocalClient) :
    b'.cliTimeout c = if renewed env b e c then 0 else b.cliTimeout c := by
  by_cases hchallok : ∃ msg s rest, e = .router msg ∧ routerCmd msg = some (s, .challok, rest)
  · obtain ⟨msg, s, rest, rfl, hmsg⟩ := hchallok
    have hnone : acceptedOf env b (.router msg) = none := by
      cases rest <;> simp [acceptedOf, hmsg, Cmd.renews]
    have hstep : step env b (.router msg) = sCbChallok env b s rest := by
      rw [step_router hmsg]
      cases rest <;> rfl
    rw [renewed, enters_eq h, hnone]
    obtain ⟨hclocks, hnodes⟩ | ⟨np, hnp, hclocks, hnodes⟩ :=
      clocks_challok hinj hok (hstep.symm.trans h)
    · rw [hclocks, hnodes]
      simp
    · rw [hclocks]
      by_cases hc : c = np
      · subst hc
        simp [DdBroker.touch, hnodes, hnp]
      · simp [DdBroker.touch, hnodes, hc]
  · have hother : ∀ msg s rest, e = .router msg → routerCmd msg ≠ some (s, .challok, rest) :=
      fun msg s rest he hmsg => hchallok ⟨msg, s, rest, he, hmsg⟩
    have hreq : ∀ s hash ten name, request env b e ≠ .register s hash ten name := by
      intro s hash ten name hreq
      obtain ⟨msg, cook, hashFrame, nameFrame, rest, he, hmsg, -⟩ := request_register hreq
      exact hother msg s _ he hmsg
    rw [step_clocks he hother _ _ h, renewed, enters_of_request h hreq, clocksAfter]
    simp

/-! ## A tick -/

/-- The expiry of an entry removes that entry. -/
theorem unregCli_entry (hinj : Function.Injective env.xxh32) (hok : TablesOk env b)
    {np : LocalClient} (hnp : np ∈ b.lclCliHt.nodes)
    (h : sCbUnregCli env b np.sockid np.cookie.1 = .done b' sends) :
    removeClient env b np.sockid np = some b' := by
  have hlocal := hok.hasLocal_self hinj hnp
  obtain ⟨hnone, -, -⟩ | ⟨c, hc, hr, -⟩ := sCbUnregCli_eq_done h
  · rw [hlocal] at hnone
    cases hnone
  · rw [hlocal] at hc
    cases hc
    exact hr

/-- The timeouts after the loop of `s_check_cli_timeout`, and the clients it leaves. -/
theorem checkClients_clocks (hinj : Function.Injective env.xxh32) {l : List LocalClient} :
    ∀ {b : DdBroker H} {sends : List Send}, TablesOk env b → l.Nodup →
      (∀ c ∈ l, c ∈ b.lclCliHt.nodes) → checkClients env l b = .done b' sends →
      (∀ c, c ∈ b'.lclCliHt.nodes ↔ c ∈ b.lclCliHt.nodes ∧ (c ∈ l → b.cliTimeout c < 3)) ∧
        ∀ c ∈ b'.lclCliHt.nodes,
          b'.cliTimeout c = if c ∈ l then b.cliTimeout c + 1 else b.cliTimeout c := by
  induction l with
  | nil =>
    intro b sends _ _ _ h
    cases h
    simp
  | cons np rest ih =>
    intro b sends hok hnd hsub h
    rw [List.nodup_cons] at hnd
    have hnp := hsub np List.mem_cons_self
    have hrest : ∀ c ∈ rest, c ≠ np := fun c hc he => hnd.1 (he ▸ hc)
    rw [checkClients] at h
    split at h
    · next hlt =>
      have hok₁ : TablesOk env { b with
          cliTimeout := fun c => if c = np then b.cliTimeout np + 1 else b.cliTimeout c } :=
        { hok with }
      obtain ⟨hnodes, hclocks⟩ := ih hok₁ hnd.2 (fun c hc => hsub c (List.mem_cons_of_mem _ hc)) h
      refine ⟨fun c => (hnodes c).trans (and_congr_right fun _ => ?_), fun c hc => ?_⟩
      · by_cases hne : c = np
        · subst hne
          simp [hnd.1, hlt]
        · simp [hne]
      · rw [hclocks c hc]
        by_cases hne : c = np
        · subst hne
          simp [hnd.1]
        · simp [hne]
    · next hge =>
      obtain ⟨b₁, s₁, s₂, h₁, h₂, -⟩ := Outcome.andThen_eq_done.mp h
      have hremove := unregCli_entry hinj hok hnp h₁
      have hmem := (hok.removeClient_spec hinj hnp hremove).2
      have hsame : b₁.cliTimeout = b.cliTimeout := clocks_unregCli b _ _ _ _ h₁
      obtain ⟨hnodes, hclocks⟩ := ih (hok.unregCli hinj h₁) hnd.2
        (fun c hc => (hmem c).mpr ⟨hsub c (List.mem_cons_of_mem _ hc), hrest c hc⟩) h₂
      refine ⟨fun c => ?_, fun c hc => ?_⟩
      · rw [hnodes, hmem, hsame]
        by_cases hne : c = np
        · subst hne
          simp [hge]
        · simp [hne]
      · have hne : c ≠ np := ((hmem c).mp ((hnodes c).mp hc).1).2
        rw [hclocks c hc, hsame]
        simp [hne]

/-- **A tick** removes the clients with the timeout 3, and adds one to the timeout of the others. -/
theorem tick_cliTimeout (hinj : Function.Injective env.xxh32) (hok : TablesOk env b)
    (h : step env b .checkCliTimeout = .done b' sends) :
    (∀ c, c ∈ b'.lclCliHt.nodes ↔ c ∈ b.lclCliHt.nodes ∧ b.cliTimeout c < 3) ∧
      ∀ c ∈ b'.lclCliHt.nodes, b'.cliTimeout c = b.cliTimeout c + 1 := by
  obtain ⟨hnodes, hclocks⟩ :=
    checkClients_clocks hinj hok hok.lclNodup.of_map (fun _ hc => hc) h
  refine ⟨fun c => (hnodes c).trans ?_, fun c hc => ?_⟩
  · exact ⟨fun h => ⟨h.1, h.2 h.1⟩, fun h => ⟨h.1, fun _ => h.2⟩⟩
  · rw [hclocks c hc, if_pos ((hnodes c).mp hc).1]

/-! ## Runs -/

variable (env) in
/-- **The ticks since the client started again**, of the events so far, the last one first. -/
def ticksSince (cfg : Config) : List Event → LocalClient → ℕ
  | [], _ => 0
  | e :: es, c =>
    match runEvents env (ddBrokerNew H cfg) es with
    | none => 0
    | some b =>
      if renewed env b e c then 0
      else if e = .checkCliTimeout then ticksSince cfg es c + 1 else ticksSince cfg es c

theorem ticksSince_cons {cfg : Config} {es : List Event} (hrun : Run env cfg es b) (e : Event)
    (c : LocalClient) : ticksSince env cfg (e :: es) c =
      if renewed env b e c then 0
      else if e = .checkCliTimeout then ticksSince env cfg es c + 1
      else ticksSince env cfg es c := by
  rw [ticksSince, hrun.runEvents]

/-- A tick starts no client again. -/
theorem renewed_tick (hinj : Function.Injective env.xxh32) (hok : TablesOk env b)
    (h : step env b .checkCliTimeout = .done b' sends) (c : LocalClient) :
    renewed env b .checkCliTimeout c = false := by
  have henters : enters env b .checkCliTimeout c = false := by
    rw [enters_eq h, decide_eq_false_iff_not]
    rintro ⟨hold, hnew⟩
    exact hold (((tick_cliTimeout hinj hok h).1 c).mp hnew).1
  rw [renewed, henters]
  rfl

/-- **The timeout of a client is the number of ticks since it started again**, three at most. -/
theorem Run.cliTimeout_eq (hinj : Function.Injective env.xxh32) {cfg : Config} {es : List Event}
    (hrun : Run env cfg es b) {c : LocalClient} (hc : c ∈ b.lclCliHt.nodes) :
    b.cliTimeout c = ticksSince env cfg es c ∧ ticksSince env cfg es c ≤ 3 := by
  induction hrun with
  | init => cases hc
  | @step es b b' e sends hrun _ hs ih =>
    have hok := Reachable.tablesOk hinj ⟨_, hrun⟩
    rw [ticksSince_cons hrun]
    by_cases he : e = .checkCliTimeout
    · subst he
      obtain ⟨hnodes, hclocks⟩ := tick_cliTimeout hinj hok hs
      obtain ⟨hold, hlt⟩ := (hnodes c).mp hc
      rw [renewed_tick hinj hok hs, hclocks c hc, (ih hold).1]
      rw [(ih hold).1] at hlt
      exact ⟨by simp, by simp; omega⟩
    · rw [step_cliTimeout hinj hok he hs, if_neg he]
      by_cases hrenewed : renewed env b e c = true
      · simp [hrenewed]
      · have hold : c ∈ b.lclCliHt.nodes := by
          by_contra hnew
          refine hrenewed ?_
          rw [renewed, enters_eq hs, decide_eq_true ⟨hnew, hc⟩]
          rfl
        rw [if_neg hrenewed, if_neg hrenewed]
        exact ih hold

end DoubleDecker
