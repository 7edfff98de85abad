import DoubleDecker.Broker.Sends
import DoubleDecker.Client.Timers

/-!
# Client/Sessions — one registration for each socket

    ADDLCL ──▸ CHALL ──▸ CHALLOK ──▸ REGOK

Each of these messages is sent for the one before it, at most once and to where that one came from,
and an `ADDLCL` is the first message of a new socket.  So of each socket at most one of the four is
on its way or, as a `REGOK`, was received (`Session.tokens`): a client that is registered gets no
second `REGOK`, and its timers fit its state in every run (`registration_timers`).
-/

namespace DoubleDecker

variable {H : Type} [DecidableEq H] (env : Env H)

/-! ## One client, its broker and its sockets -/

/-- A client and its broker.  `sockid` is what the broker calls the open dealer socket of the
client, `used` has the ids of all its sockets so far; `up` has the messages on their way up, each
with the socket id it was sent under, `down` those for the open socket, and `received` what the
client got, each with the socket id it came over. -/
structure Session (H : Type) where
  client : DdClient
  broker : DdBroker H
  sockid : Frame
  used : List Frame
  up : List (Frame × List Frame)
  down : List (List Frame)
  received : List (Frame × List Frame)

/-- What happens next. -/
inductive SessionEvent where
  /-- A timer of the client that runs; a socket it opens gets this id. -/
  | fire (timer : Nat × TimerFn) (sockid : Frame)
  /-- A call of the application. -/
  | call (e : ClientEvent)
  /-- The next message arrives at the client. -/
  | toClient
  /-- The first message of its socket arrives at the broker. -/
  | toBroker (i : Nat)
  /-- A message of a socket that was closed is lost. -/
  | lose (i : Nat)
  /-- A timer of the broker, or a message of another peer. -/
  | broker (e : Event)

/-- The socket id a message of a router socket starts with. -/
def Event.source : Event → Option Frame
  | .router msg => msg.head?
  | _ => none

namespace Session

/-- The client at the start of its thread, with the socket that opens. -/
def start {H : Type} (client : DdClient) (broker : DdBroker H) (sockid : Frame) : Session H :=
  ⟨client, broker, sockid, [sockid], [], [], []⟩

variable (n : Session H)

/-- The client handles an event. -/
def clientActs {H : Type} (env : Env H) (n : Session H) (e : ClientEvent) : Option (Session H) :=
  (clientStep env n.client e).map fun h => { n with
    client := h.self
    up := n.up ++ h.sends.map fun m => (n.sockid, m) }

/-- The broker handles an event. -/
def brokerActs (e : Event) : Option (Session H) :=
  match step env n.broker e with
  | .done b sends => some { n with
      broker := b, down := n.down ++ sends.filterMap (Send.toSocket n.sockid) }
  | .fault _ => none

/-- What an event does.  A message that its receiver does not survive has no outcome. -/
def act : SessionEvent → Option (Session H)
  | .fire (timerId, fn) sockid =>
    if (timerId, fn) ∈ n.client.loop.timers then
      match fn with
      | .sAskRegistration =>
        if n.client.state = .unreg then
          if sockid ∈ n.used then none
          else { n with sockid, used := sockid :: n.used, down := [] }.clientActs env
            .askRegistration
        else n.clientActs env .askRegistration
      | .sHeartbeat => n.clientActs env .heartbeat
      | .sPing => n.clientActs env (.ping timerId)
    else none
  | .call e => if e.isCall then n.clientActs env e else none
  | .toClient =>
    match n.down with
    | [] => none
    | m :: down =>
      { n with down, received := n.received ++ [(n.sockid, m)] }.clientActs env (.message m)
  | .toBroker i =>
    match n.up[i]? with
    | none => none
    | some (source, m) =>
      if (n.up.take i).any fun p => p.1 = source then none
      else { n with up := n.up.eraseIdx i }.brokerActs env (.router (source :: m))
  | .lose i =>
    match n.up[i]? with
    | none => none
    | some (source, _) => if source ≠ n.sockid then some { n with up := n.up.eraseIdx i } else none
  | .broker e =>
    if e.enabled n.broker ∧ ∀ s ∈ n.used, e.source ≠ some s then n.brokerActs env e else none

/-- The session after some events, the first one first. -/
def run (n : Session H) : List SessionEvent → Option (Session H)
  | [] => some n
  | e :: es => (n.act env e).bind fun n => n.run es

end Session

/-! ## The messages of a registration -/

/-- Whether a message has one of these commands. -/
def hasCmd (cmds : List Cmd) (m : List Frame) : Bool := (dealerCmd m).any fun p => p.1 ∈ cmds

/-- A message a registration goes on with at the broker. -/
def asks (m : List Frame) : Bool := hasCmd [.addlcl, .addbr, .challok] m

/-- A message a registration goes on with at the client. -/
def grants (m : List Frame) : Bool := hasCmd [.chall, .regok] m

omit [DecidableEq H]

@[simp] theorem hasCmd_ddMsg (cmds : List Cmd) (c : Cmd) (body : List Frame) :
    hasCmd cmds (ddMsg c body) = decide (c ∈ cmds) := by simp [hasCmd]

/-- How many messages of a registration an event of the client may send. -/
def ClientEvent.allowance : ClientEvent → Nat
  | .askRegistration => 1
  | .message m => if hasCmd [.chall] m then 1 else 0
  | _ => 0

/-- Messages of other commands do not ask. -/
theorem countP_asks_eq_zero {ms : List (List Frame)}
    (h : ∀ m ∈ ms, ∃ cmd body, m = ddMsg cmd body ∧ cmd ∉ [Cmd.addlcl, .addbr, .challok]) :
    ms.countP asks = 0 := by
  rw [List.countP_eq_zero]
  intro m hm
  obtain ⟨cmd, body, rfl, hcmd⟩ := h m hm
  simpa [asks] using hcmd

/-- What is sent when registered. -/
theorem countP_asks_ite {p : Prop} [Decidable p] {cmd : Cmd} {body : List Frame}
    (hcmd : cmd ∉ [Cmd.addlcl, .addbr, .challok]) :
    (if p then [ddMsg cmd body] else []).countP asks = 0 := by
  refine countP_asks_eq_zero fun m hm => ?_
  split at hm
  · exact ⟨cmd, body, List.mem_singleton.mp hm, hcmd⟩
  · cases hm

/-- **What the client sends**: it asks over a new socket, and meets a challenge. -/
theorem countP_asks_clientStep {env : Env H} {c : DdClient} {e : ClientEvent} {h : Handled}
    (hs : clientStep env c e = some h) : h.sends.countP asks ≤ e.allowance := by
  cases e with
  | subscribe topic scope =>
    cases hs
    exact (countP_asks_ite (by decide)).le
  | unsubscribe topic scope =>
    cases hs
    exact (countP_asks_ite (by decide)).le
  | publish topic message =>
    obtain ⟨-, rfl⟩ | ⟨key, -, -, rfl⟩ := clientStep_publish hs
    · exact Nat.zero_le _
    · exact (countP_asks_ite (by decide)).le
  | notify target message =>
    obtain ⟨-, rfl⟩ := clientStep_notify hs
    exact (countP_asks_ite (by decide)).le
  | message msg =>
    rw [clientStep] at hs
    cases hcmd : dealerCmd msg with
    | none =>
      rw [sOnClientMsg_of_dealerCmd_none hcmd hs]
      exact Nat.zero_le _
    | some p =>
      obtain ⟨cmd, body⟩ := p
      rw [sOnClientMsg_of_dealerCmd hcmd] at hs
      obtain ⟨rfl, body', hsends⟩ | hsends := onClientCmd_sends hs
      · rw [hsends, ClientEvent.allowance, if_pos (by simp [hasCmd, hcmd])]
        exact List.countP_le_length
      · refine (countP_asks_eq_zero fun m hm => ?_).le.trans (Nat.zero_le _)
        obtain ⟨cmd', body', rfl, rfl | rfl⟩ := hsends m hm
        · exact ⟨_, _, rfl, by decide⟩
        · exact ⟨_, _, rfl, by decide⟩
  | askRegistration =>
    cases hs
    refine List.countP_le_length.trans ?_
    simp only [sAskRegistration]
    split
    · exact Nat.le_refl _
    · exact Nat.zero_le _
  | heartbeat =>
    cases hs
    unfold sClientHeartbeat
    simp only
    split <;> exact Nat.zero_le _
  | ping =>
    cases hs
    exact (countP_asks_ite (by decide)).le

section

variable {env : Env H} {b b' : DdBroker H} {sends : List Send} {s : Frame}

/-- What grants nothing. -/
theorem countP_grants_eq_zero {o : Outcome H} {cs : List Cmd} (h : o.Says cs)
    (hcs : ∀ c ∈ cs, c ∉ [Cmd.chall, .regok]) :
    (o.sends.filterMap (Send.toSocket s)).countP grants = 0 := by
  rw [List.countP_eq_zero]
  intro m hm hgrants
  obtain ⟨x, hx, hm⟩ := List.mem_filterMap.mp hm
  cases x with
  | rsock dest msg =>
    simp only [Send.toSocket] at hm
    split at hm
    · cases hm
      obtain ⟨p, hp, hcmd⟩ := (Option.any_eq_true _ _).mp hgrants
      exact hcs _ (h _ hx _ (cmd_of_dealerCmd hp _).1) (of_decide_eq_true hcmd)
    · cases hm
  | dsock | pubN | pubS | subN | subS => cases hm

/-- **At most one answer**, and to the peer that asked. -/
def Outcome.AnswersOnce (o : Outcome H) (source : Frame) : Prop :=
  ∀ s, (o.sends.filterMap (Send.toSocket s)).length ≤ if source = s then 1 else 0

theorem answersOnce_of_nil {o : Outcome H} (h : o.sends = []) (source : Frame) :
    o.AnswersOnce source := fun s => by
  rw [h]
  exact Nat.zero_le _

theorem answersOnce_cons {o : Outcome H} {m : List Frame} {up : List Send}
    (h : o.sends = .rsock source m :: up) (hup : ∀ s, up.filterMap (Send.toSocket s) = []) :
    o.AnswersOnce source := fun s => by
  rw [h, List.filterMap_cons, hup, Send.toSocket]
  split
  · exact Nat.zero_le _
  · next heq =>
    split at heq
    · next hs =>
      rw [if_pos hs]
      exact Nat.le_refl _
    · cases heq

theorem toSocket_addCliUp (self : DdBroker H) (name : CStr) (dist : UInt32) (s : Frame) :
    (addCliUp self name dist).filterMap (Send.toSocket s) = [] := by
  unfold addCliUp
  split <;> rfl

theorem answersOnce_addlcl (b : DdBroker H) (source : Frame) (msg : List Frame) :
    (sCbAddlcl env b source msg).AnswersOnce source := by
  unfold sCbAddlcl
  split
  · exact answersOnce_of_nil rfl _
  · split
    · exact answersOnce_cons rfl fun _ => rfl
    · exact answersOnce_cons rfl fun _ => rfl

theorem answersOnce_addbr (b : DdBroker H) (source : Frame) (msg : List Frame) :
    (sCbAddbr env b source msg).AnswersOnce source := by
  unfold sCbAddbr
  split
  · exact answersOnce_of_nil rfl _
  · split
    · exact answersOnce_of_nil rfl _
    · exact answersOnce_cons rfl fun _ => rfl

theorem answersOnce_registerClient [DecidableEq H] (b : DdBroker H) (source : Frame)
    (ten : DdTenant) (clientName : CStr) :
    (registerClient env b source ten clientName).AnswersOnce source := by
  unfold registerClient
  split
  · exact answersOnce_of_nil rfl _
  · exact answersOnce_cons rfl fun _ => rfl
  · refine answersOnce_cons rfl fun s => ?_
    split
    · exact toSocket_addCliUp _ _ _ s
    · rfl

theorem answersOnce_challok [DecidableEq H] (b : DdBroker H) (source : Frame) (msg : List Frame) :
    (sCbChallok env b source msg).AnswersOnce source := by
  unfold sCbChallok
  split
  · exact answersOnce_of_nil rfl _
  · simp only
    split
    · split
      · exact answersOnce_of_nil rfl _
      · split
        · exact answersOnce_of_nil rfl _
        · split
          · exact answersOnce_of_nil rfl _
          · exact answersOnce_of_nil rfl _
          · exact answersOnce_cons rfl fun _ => rfl
    · split
      · exact answersOnce_of_nil rfl _
      · split
        · exact answersOnce_of_nil rfl _
        · split
          · exact answersOnce_of_nil rfl _
          · split
            · exact answersOnce_of_nil rfl _
            · exact answersOnce_registerClient _ _ _ _
  · exact answersOnce_of_nil rfl _

/-- How many messages of a registration an event of the broker may send to a socket. -/
def Event.allowance (s : Frame) : Event → Nat
  | .router (source :: m) => if source = s ∧ asks m then 1 else 0
  | _ => 0

/-- The other commands of a router message grant nothing. -/
theorem not_grants_of_answers {cmd c : Cmd} (hcmd : cmd ∉ [Cmd.addlcl, .addbr, .challok])
    (hc : c ∈ cmd.answers) : c ∉ [Cmd.chall, .regok] := by
  cases cmd <;> simp [Cmd.answers] at hcmd hc ⊢ <;> rcases hc with rfl | rfl | rfl <;> decide

/-- The commands of the higher broker and the other events grant nothing. -/
theorem not_grants_of_event {e : Event} {c : Cmd} (hrouter : ∀ msg, e ≠ .router msg)
    (hc : c ∈ e.answers) : c ∉ [Cmd.chall, .regok] := by
  cases e with
  | router msg => exact absurd rfl (hrouter msg)
  | dealer msg =>
    rw [Event.answers] at hc
    cases hcmd : dealerCmd msg with
    | none => simp [hcmd] at hc
    | some p =>
      obtain ⟨cmd, body⟩ := p
      rw [hcmd] at hc
      cases cmd <;> simp [Cmd.dealerAnswers] at hc ⊢ <;> rcases hc with rfl | rfl | rfl <;> decide
  | subN | subS | pubN | pubS | register | heartbeat | checkCliTimeout | checkBrTimeout =>
    simp [Event.answers] at hc <;> rw [hc] <;> decide

/-- **What the broker grants**: at most one message for each that asks, over the same socket. -/
theorem countP_grants_step [DecidableEq H] {e : Event} (h : step env b e = .done b' sends)
    (s : Frame) : (sends.filterMap (Send.toSocket s)).countP grants ≤ e.allowance s := by
  have hsends : sends = (step env b e).sends := by rw [h, Outcome.sends]
  have hsays := @says_step _ _ env b e
  rw [hsends]
  by_cases hrouter : ∀ msg, e ≠ .router msg
  · exact (countP_grants_eq_zero hsays fun c => not_grants_of_event hrouter).le.trans
      (Nat.zero_le _)
  · obtain ⟨msg, hmsg⟩ := not_forall.mp hrouter
    obtain rfl := not_not.mp hmsg
    cases msg with
    | nil =>
      refine (countP_grants_eq_zero hsays fun c hc => ?_).le
      rw [List.mem_singleton.mp hc]
      decide
    | cons source m =>
      cases hcmd : dealerCmd m with
      | none =>
        refine (countP_grants_eq_zero hsays fun c hc => ?_).le.trans (Nat.zero_le _)
        rw [Event.answers, routerCmd_cons, hcmd] at hc
        rw [List.mem_singleton.mp hc]
        decide
      | some p =>
        obtain ⟨cmd, rest⟩ := p
        have hmsg : routerCmd (source :: m) = some (source, cmd, rest) := by
          rw [routerCmd_cons, hcmd, Option.map_some]
        by_cases hasks : cmd ∈ [Cmd.addlcl, .addbr, .challok]
        · have hm : asks m := by simpa [asks, hasCmd, hcmd] using hasks
          simp only [Event.allowance, hm, and_true]
          refine List.countP_le_length.trans ?_
          rw [step_router hmsg]
          simp only [List.mem_cons, List.not_mem_nil, or_false] at hasks
          obtain rfl | rfl | rfl := hasks
          · have hone := @answersOnce_addlcl _ env b source rest s
            cases rest <;> exact hone
          · have hone := @answersOnce_addbr _ env b source rest s
            cases rest <;> exact hone
          · exact answersOnce_challok _ _ _ s
        · refine (countP_grants_eq_zero hsays fun c hc => ?_).le.trans (Nat.zero_le _)
          rw [Event.answers, hmsg] at hc
          obtain rfl | hc := List.mem_cons.mp hc
          · decide
          · exact not_grants_of_answers hasks hc

end

/-! ## Sockets and what is on its way -/

namespace Session

/-- A `REGOK` that came over a socket. -/
def regokOver (s : Frame) (p : Frame × List Frame) : Bool := p.1 = s && hasCmd [.regok] p.2

/-- A message that asks, sent over a socket. -/
def asksOver (s : Frame) (p : Frame × List Frame) : Bool := p.1 = s && asks p.2

/-- **The messages of the registration over a socket** that are on their way, or came to its end. -/
def tokens (n : Session H) (s : Frame) : Nat :=
  n.up.countP (asksOver s) + (if s = n.sockid then n.down.countP grants else 0) +
    n.received.countP (regokOver s)

/-- The messages of a session are of sockets that were used. -/
structure Known (n : Session H) : Prop where
  sockid : n.sockid ∈ n.used
  up : ∀ p ∈ n.up, p.1 ∈ n.used
  received : ∀ p ∈ n.received, p.1 ∈ n.used

/-- **The state of a session.** -/
structure Ok (n : Session H) : Prop where
  fits : n.client.Fits
  tokens : ∀ s, n.tokens s ≤ 1
  known : n.Known
  /-- A client is registered by the `REGOK` of its open socket. -/
  registered : n.client.state = .registered → 0 < n.received.countP (regokOver n.sockid)

variable {env : Env H} {n n' : Session H}

/-- The client acts. -/
theorem of_clientActs {e : ClientEvent} (hact : n.clientActs env e = some n') :
    ∃ h, clientStep env n.client e = some h ∧ n' = { n with
      client := h.self
      up := n.up ++ h.sends.map fun m => (n.sockid, m) } := by
  obtain ⟨h, hs, rfl⟩ := Option.map_eq_some_iff.mp hact
  exact ⟨h, hs, rfl⟩

theorem of_brokerActs [DecidableEq H] {e : Event} (hact : n.brokerActs env e = some n') :
    ∃ b sends, step env n.broker e = .done b sends ∧ n' = { n with
      broker := b, down := n.down ++ sends.filterMap (Send.toSocket n.sockid) } := by
  unfold brokerActs at hact
  split at hact
  · next b sends hs => exact ⟨b, sends, hs, (Option.some.inj hact).symm⟩
  · cases hact

/-- **What the client adds**, over the open socket. -/
theorem tokens_clientActs {e : ClientEvent} (hact : n.clientActs env e = some n') (s : Frame) :
    n'.tokens s ≤ n.tokens s + if s = n.sockid then e.allowance else 0 := by
  obtain ⟨h, hs, rfl⟩ := of_clientActs hact
  have hsent := countP_asks_clientStep hs
  simp only [tokens, List.countP_append, List.countP_map]
  by_cases hsock : s = n.sockid
  · have hover : asksOver s ∘ (fun m => (n.sockid, m)) = asks := by
      funext m
      simp [asksOver, hsock]
    rw [hover, if_pos hsock, if_pos hsock]
    omega
  · have hover : asksOver s ∘ (fun m => (n.sockid, m)) = fun _ => false := by
      funext m
      simp [asksOver, Ne.symm hsock]
    rw [hover, if_neg hsock, if_neg hsock, List.countP_false, Function.const_apply]
    exact Nat.le_refl _

/-- **What the broker adds**, for the open socket. -/
theorem tokens_brokerActs [DecidableEq H] {e : Event} (hact : n.brokerActs env e = some n')
    (s : Frame) : n'.tokens s ≤ n.tokens s + if s = n.sockid then e.allowance s else 0 := by
  obtain ⟨b, sends, hs, rfl⟩ := of_brokerActs hact
  have hsent := countP_grants_step hs n.sockid
  simp only [tokens, List.countP_append]
  by_cases hsock : s = n.sockid
  · subst hsock
    rw [if_pos rfl, if_pos rfl, if_pos rfl]
    omega
  · rw [if_neg hsock, if_neg hsock, if_neg hsock]
    exact Nat.le_refl _

/-- A socket that was not used has nothing on its way. -/
theorem Known.countP_eq_zero (h : n.Known) {s : Frame} (hs : s ∉ n.used) :
    n.up.countP (asksOver s) = 0 ∧ n.received.countP (regokOver s) = 0 := by
  refine ⟨List.countP_eq_zero.mpr fun p hp hover => ?_,
    List.countP_eq_zero.mpr fun p hp hover => ?_⟩
  · rw [asksOver, Bool.and_eq_true, decide_eq_true_eq] at hover
    exact hs (hover.1 ▸ h.up p hp)
  · rw [regokOver, Bool.and_eq_true, decide_eq_true_eq] at hover
    exact hs (hover.1 ▸ h.received p hp)

theorem Known.clientActs (h : n.Known) {e : ClientEvent} (hact : n.clientActs env e = some n') :
    n'.Known := by
  obtain ⟨handled, -, rfl⟩ := of_clientActs hact
  refine ⟨h.sockid, fun p hp => ?_, h.received⟩
  obtain hp | hp := List.mem_append.mp hp
  · exact h.up p hp
  · obtain ⟨m, -, rfl⟩ := List.mem_map.mp hp
    exact h.sockid

/-- A message leaves the way up. -/
theorem countP_up {i : Nat} {p : Frame × List Frame} (hi : n.up[i]? = some p)
    (q : Frame × List Frame → Bool) :
    n.up.countP q = (n.up.eraseIdx i).countP q + if q p then 1 else 0 := by
  obtain ⟨hlt, rfl⟩ := List.getElem?_eq_some_iff.mp hi
  rw [← (List.getElem_cons_eraseIdx_perm hlt).countP_eq q, List.countP_cons]

/-! ### The client's steps -/

/-- **A step of the client**, from a session with room for what it sends. -/
theorem Ok.of_clientActs {e : ClientEvent} (hact : n.clientActs env e = some n') (hknown : n.Known)
    (hroom : ∀ s, n.tokens s + (if s = n.sockid then e.allowance else 0) ≤ 1)
    (hfits : n.client.Fits) (hen : e.enabled n.client)
    (hunreg : e.registers → n.client.state = .unreg)
    (hregistered : ∀ h, clientStep env n.client e = some h → h.self.state = .registered →
      0 < n.received.countP (regokOver n.sockid)) : n'.Ok where
  tokens s := (tokens_clientActs hact s).trans (hroom s)
  known := hknown.clientActs hact
  fits := by
    obtain ⟨h, hs, rfl⟩ := Session.of_clientActs hact
    exact hfits.step hen hunreg hs
  registered := by
    obtain ⟨h, hs, rfl⟩ := Session.of_clientActs hact
    exact hregistered h hs

/-- An event that sends nothing of a registration. -/
theorem Ok.room (h : n.Ok) {e : ClientEvent} (he : e.allowance = 0) (s : Frame) :
    n.tokens s + (if s = n.sockid then e.allowance else 0) ≤ 1 := by
  rw [he, ite_self]
  exact h.tokens s

/-- **A new socket.** -/
theorem Ok.askRegistration (h : n.Ok) {id : Nat}
    (hmem : (id, .sAskRegistration) ∈ n.client.loop.timers) {sockid : Frame}
    (hnew : sockid ∉ n.used)
    (hact : { n with sockid, used := sockid :: n.used, down := [] }.clientActs env
      .askRegistration = some n') : n'.Ok := by
  refine .of_clientActs hact ⟨List.mem_cons_self, fun p hp => List.mem_cons_of_mem _
    (h.known.up p hp),
    fun p hp => List.mem_cons_of_mem _ (h.known.received p hp)⟩ (fun s => ?_) h.fits
    (Zloop.runs_eq_true.mpr ⟨id, hmem⟩) nofun fun handled hs hstate => ?_
  · simp only [Session.tokens, List.countP_nil, ite_self, Nat.add_zero]
    by_cases hs : s = sockid
    · obtain ⟨hup, hreceived⟩ := h.known.countP_eq_zero (hs ▸ hnew)
      rw [hup, hreceived, if_pos hs]
      exact Nat.le_refl _
    · rw [if_neg hs]
      have := h.tokens s
      unfold Session.tokens at this
      omega
  · cases hs
    rw [show (sAskRegistration n.client).self.state = n.client.state from rfl,
      h.fits.unreg_of_mem hmem] at hstate
    cases hstate

theorem Ok.heartbeat (h : n.Ok) {id : Nat} (hmem : (id, .sHeartbeat) ∈ n.client.loop.timers)
    (hact : n.clientActs env .heartbeat = some n') : n'.Ok :=
  .of_clientActs hact h.known (h.room rfl) h.fits (Zloop.runs_eq_true.mpr ⟨id, hmem⟩) nofun
    fun _ _ _ => h.registered (h.fits.registered_of_mem hmem)

theorem enabled_ping {c : DdClient} {id : Nat} (hmem : (id, .sPing) ∈ c.loop.timers) :
    (ClientEvent.ping id).enabled c := List.any_eq_true.mpr ⟨_, hmem, decide_eq_true rfl⟩

theorem Ok.ping (h : n.Ok) {id : Nat} (hmem : (id, .sPing) ∈ n.client.loop.timers)
    (hact : n.clientActs env (.ping id) = some n') : n'.Ok := by
  refine .of_clientActs hact h.known (h.room rfl) h.fits (enabled_ping hmem) nofun
    fun handled hs hstate => ?_
  cases hs
  exact h.registered hstate

theorem enabled_of_isCall {c : DdClient} {e : ClientEvent} (hcall : e.isCall) : e.enabled c := by
  cases e <;> first | rfl | cases hcall

theorem Ok.call (h : n.Ok) {e : ClientEvent} (hcall : e.isCall)
    (hact : n.clientActs env e = some n') : n'.Ok := by
  refine .of_clientActs hact h.known (h.room (by cases e <;> first | rfl | cases hcall)) h.fits
    (enabled_of_isCall hcall) (fun hreg => ?_) fun handled hs hstate =>
      h.registered ((sameTimers_of_isCall hcall hs).state.symm.trans hstate)
  cases e <;> first | cases hreg | cases hcall

/-- What registers is a `REGOK`. -/
theorem hasCmd_of_registers {msg : List Frame} (h : (ClientEvent.message msg).registers) :
    hasCmd [.regok] msg := by
  rw [ClientEvent.registers] at h
  cases hcmd : dealerCmd msg with
  | none => simp [hcmd] at h
  | some p =>
    rw [hcmd, Option.any_some] at h
    unfold registers at h
    split at h
    · rename_i hregok _
      rw [hasCmd, hcmd, Option.any_some, hregok]
      rfl
    · cases h

/-- A client is registered by a `REGOK`. -/
theorem regok_of_state {c : DdClient} {msg : List Frame} {handled : Handled}
    (hs : clientStep env c (.message msg) = some handled)
    (hstate : handled.self.state = .registered) :
    c.state = .registered ∨ hasCmd [.regok] msg := by
  rw [clientStep] at hs
  cases hcmd : dealerCmd msg with
  | none =>
    rw [sOnClientMsg_of_dealerCmd_none hcmd hs] at hstate
    exact Or.inl hstate
  | some p =>
    obtain ⟨cmd, body⟩ := p
    rw [sOnClientMsg_of_dealerCmd hcmd] at hs
    rw [(onClientCmd_obeys hs).state] at hstate
    split at hstate
    · next hreg =>
      refine Or.inr (hasCmd_of_registers ?_)
      rw [ClientEvent.registers, hcmd]
      exact hreg
    · exact Or.inl hstate

/-- A challenge or a `REGOK`. -/
theorem grants_eq (m : List Frame) : (if grants m then 1 else 0) =
    (if hasCmd [.chall] m then 1 else 0) + if hasCmd [.regok] m then 1 else 0 := by
  unfold grants hasCmd
  cases dealerCmd m with
  | none => rfl
  | some p =>
    obtain ⟨cmd, body⟩ := p
    cases cmd <;> rfl

/-- **A message arrives.**  A client that is registered has had its `REGOK`. -/
theorem Ok.toClient (h : n.Ok) {m : List Frame} {down : List (List Frame)}
    (hdown : n.down = m :: down)
    (hact : { n with down, received := n.received ++ [(n.sockid, m)] }.clientActs env (.message m) =
      some n') : n'.Ok := by
  have hover : ∀ s, regokOver s (n.sockid, m) = (decide (n.sockid = s) && hasCmd [.regok] m) :=
    fun s => rfl
  have htokens : ∀ s, n.up.countP (asksOver s) +
      (if s = n.sockid then down.countP grants + ((if hasCmd [.chall] m then 1 else 0) +
        if hasCmd [.regok] m then 1 else 0) else 0) + n.received.countP (regokOver s) ≤ 1 :=
    fun s => by simpa only [Session.tokens, hdown, List.countP_cons, grants_eq] using h.tokens s
  refine .of_clientActs hact ⟨h.known.sockid, h.known.up, fun p hp => ?_⟩ (fun s => ?_)
    h.fits rfl (fun hreg => ?_) fun handled hs hstate => ?_
  · obtain hp | hp := List.mem_append.mp hp
    · exact h.known.received p hp
    · rw [List.mem_singleton.mp hp]
      exact h.known.sockid
  · have hs := htokens s
    simp only [Session.tokens, List.countP_append, List.countP_singleton, hover,
      ClientEvent.allowance]
    by_cases hsock : s = n.sockid
    · subst hsock
      simp only [if_true, decide_true, Bool.true_and] at hs ⊢
      omega
    · simp only [hsock, Ne.symm hsock, if_false, decide_false, Bool.false_and, Bool.false_eq_true]
        at hs ⊢
      omega
  · by_contra hunreg
    have hstate : n.client.state = .registered := by
      cases hc : n.client.state with
      | unreg => exact absurd hc hunreg
      | registered => rfl
    -- the `REGOK` it was registered by, and this one
    have hreceived := h.registered hstate
    have hs := htokens n.sockid
    rw [if_pos rfl, if_pos (hasCmd_of_registers hreg)] at hs
    omega
  · rw [List.countP_append, List.countP_singleton, hover]
    obtain hold | hregok := regok_of_state hs hstate
    · exact Nat.lt_of_lt_of_le (h.registered hold) (Nat.le_add_right _ _)
    · simp [hregok]

/-! ### The broker's steps -/

/-- **A step of the broker**, from a session with room for what it sends. -/
theorem Ok.of_brokerActs [DecidableEq H] {e : Event} (hact : n.brokerActs env e = some n')
    (hfits : n.client.Fits) (hknown : n.Known)
    (hregistered : n.client.state = .registered → 0 < n.received.countP (regokOver n.sockid))
    (hroom : ∀ s, n.tokens s + (if s = n.sockid then e.allowance s else 0) ≤ 1) : n'.Ok := by
  have htokens := fun s => (tokens_brokerActs hact s).trans (hroom s)
  obtain ⟨b, sends, -, rfl⟩ := Session.of_brokerActs hact
  exact ⟨hfits, htokens, ⟨hknown.sockid, hknown.up, hknown.received⟩, hregistered⟩

/-- **A message arrives at the broker.** -/
theorem Ok.toBroker [DecidableEq H] (h : n.Ok) {i : Nat} {source : Frame} {m : List Frame}
    (hi : n.up[i]? = some (source, m))
    (hact : { n with up := n.up.eraseIdx i }.brokerActs env (.router (source :: m)) = some n') :
    n'.Ok := by
  refine .of_brokerActs hact h.fits ⟨h.known.sockid, fun p hp => ?_, h.known.received⟩ h.registered
    fun s => ?_
  · exact h.known.up p (List.mem_of_mem_eraseIdx hp)
  · have htokens := h.tokens s
    have hover : asksOver s (source, m) = (decide (source = s) && asks m) := rfl
    rw [Session.tokens, countP_up hi, hover] at htokens
    simp only [Session.tokens, Event.allowance]
    simp only [Bool.and_eq_true, decide_eq_true_eq] at htokens
    have hle : (if s = n.sockid then if source = s ∧ asks m then 1 else 0 else 0) ≤
        if source = s ∧ asks m then 1 else 0 := by
      split
      · exact Nat.le_refl _
      · exact Nat.zero_le _
    omega

/-- A message of an old socket is lost. -/
theorem Ok.lose (h : n.Ok) (i : Nat) : Ok { n with up := n.up.eraseIdx i } := by
  refine ⟨h.fits, fun s => ?_, ⟨h.known.sockid, fun p hp => ?_, h.known.received⟩, h.registered⟩
  · refine Nat.le_trans ?_ (h.tokens s)
    simp only [Session.tokens]
    have : (n.up.eraseIdx i).countP (asksOver s) ≤ n.up.countP (asksOver s) :=
      (List.eraseIdx_sublist n.up i).countP_le
    omega
  · exact h.known.up p (List.mem_of_mem_eraseIdx hp)

/-- Another event of the broker. -/
theorem Ok.broker [DecidableEq H] (h : n.Ok) {e : Event} (hother : ∀ s ∈ n.used, e.source ≠ some s)
    (hact : n.brokerActs env e = some n') : n'.Ok := by
  refine .of_brokerActs hact h.fits h.known h.registered fun s => ?_
  split
  · next hs =>
    have hnone : e.allowance s = 0 := by
      unfold Event.allowance
      split
      · next source m =>
        refine if_neg fun hsource => hother s (hs ▸ h.known.sockid) ?_
        rw [← hsource.1]
        rfl
      · rfl
    rw [hnone]
    exact h.tokens s
  · exact h.tokens s

/-! ### Every run -/

/-- **What a step can be**, from a session whose timers fit. -/
inductive Moves [DecidableEq H] (env : Env H) (n : Session H) : Session H → Prop
  | askRegistration {id : Nat} {sockid : Frame} {n' : Session H}
      (hmem : (id, .sAskRegistration) ∈ n.client.loop.timers) (hnew : sockid ∉ n.used)
      (hact : { n with sockid, used := sockid :: n.used, down := [] }.clientActs env
        .askRegistration = some n') : Moves env n n'
  | heartbeat {id : Nat} {n' : Session H} (hmem : (id, .sHeartbeat) ∈ n.client.loop.timers)
      (hact : n.clientActs env .heartbeat = some n') : Moves env n n'
  | ping {id : Nat} {n' : Session H} (hmem : (id, .sPing) ∈ n.client.loop.timers)
      (hact : n.clientActs env (.ping id) = some n') : Moves env n n'
  | call {e : ClientEvent} {n' : Session H} (hcall : e.isCall)
      (hact : n.clientActs env e = some n') : Moves env n n'
  | toClient {m : List Frame} {down : List (List Frame)} {n' : Session H}
    (hdown : n.down = m :: down)
      (hact : { n with down, received := n.received ++ [(n.sockid, m)] }.clientActs env
        (.message m) = some n') : Moves env n n'
  | toBroker {i : Nat} {source : Frame} {m : List Frame} {n' : Session H}
      (hi : n.up[i]? = some (source, m))
      (hact : { n with up := n.up.eraseIdx i }.brokerActs env (.router (source :: m)) = some n') :
      Moves env n n'
  | lose (i : Nat) : Moves env n { n with up := n.up.eraseIdx i }
  | broker {e : Event} {n' : Session H} (hen : e.enabled n.broker)
      (hother : ∀ s ∈ n.used, e.source ≠ some s) (hact : n.brokerActs env e = some n') :
      Moves env n n'

/-- The registration timer runs in `UNREG` and the heartbeat in `REGISTERED`. -/
theorem Ok.moves [DecidableEq H] (h : n.Ok) {e : SessionEvent} (hact : n.act env e = some n') :
    Moves env n n' := by
  cases e with
  | fire timer sockid =>
    obtain ⟨id, fn⟩ := timer
    simp only [Session.act] at hact
    split at hact
    · next hmem =>
      cases fn with
      | sAskRegistration =>
        have hunreg := h.fits.unreg_of_mem hmem
        simp only [hunreg, if_true] at hact
        split at hact
        · cases hact
        · next hnew => exact .askRegistration hmem hnew hact
      | sHeartbeat => exact .heartbeat hmem hact
      | sPing => exact .ping hmem hact
    · cases hact
  | call e =>
    simp only [Session.act] at hact
    split at hact
    · next hcall => exact .call hcall hact
    · cases hact
  | toClient =>
    simp only [Session.act] at hact
    split at hact
    · cases hact
    · next hdown => exact .toClient hdown hact
  | toBroker i =>
    simp only [Session.act] at hact
    split at hact
    · cases hact
    · next hi =>
      split at hact
      · cases hact
      · exact .toBroker hi hact
  | lose i =>
    simp only [Session.act] at hact
    split at hact
    · cases hact
    · split at hact
      · cases hact
        exact .lose i
      · cases hact
  | broker e =>
    simp only [Session.act] at hact
    split at hact
    · next hen => exact .broker hen.1 hen.2 hact
    · cases hact

/-- **Every step keeps the state.** -/
theorem Ok.act [DecidableEq H] (h : n.Ok) {e : SessionEvent} (hact : n.act env e = some n') :
    n'.Ok := by
  cases h.moves hact with
  | askRegistration hmem hnew hact => exact h.askRegistration hmem hnew hact
  | heartbeat hmem hact => exact h.heartbeat hmem hact
  | ping hmem hact => exact h.ping hmem hact
  | call hcall hact => exact h.call hcall hact
  | toClient hdown hact => exact h.toClient hdown hact
  | toBroker hi hact => exact h.toBroker hi hact
  | lose i => exact h.lose i
  | broker hen hother hact => exact h.broker hother hact

theorem Ok.run [DecidableEq H] (h : n.Ok) {es : List SessionEvent}
    (hrun : n.run env es = some n') : n'.Ok := by
  induction es generalizing n with
  | nil =>
    cases hrun
    exact h
  | cons e es ih =>
    obtain ⟨n₁, hact, hrun⟩ := Option.bind_eq_some_iff.mp hrun
    exact ih (h.act hact) hrun

/-- The client's part of a step. -/
theorem clientRun_of_clientActs {c₀ : DdClient} {cs : List ClientEvent} {e : ClientEvent}
    (hact : n.clientActs env e = some n') (hrun : clientRun env c₀ cs = some n.client)
    (hen : e.enabled n.client) : clientRun env c₀ (e :: cs) = some n'.client := by
  obtain ⟨h, hs, rfl⟩ := of_clientActs hact
  rw [clientRun, hrun, Option.bind_some, if_pos hen, hs]
  rfl

theorem brokerActs_client [DecidableEq H] {e : Event} (hact : n.brokerActs env e = some n') :
    n'.client = n.client := by
  obtain ⟨b, sends, -, rfl⟩ := of_brokerActs hact
  rfl

/-- **A session runs its client.** -/
theorem Ok.clientRun [DecidableEq H] (h : n.Ok) {c₀ : DdClient} {cs : List ClientEvent}
    (hrun : DoubleDecker.clientRun env c₀ cs = some n.client) {e : SessionEvent}
    (hact : n.act env e = some n') : ∃ cs, DoubleDecker.clientRun env c₀ cs = some n'.client := by
  cases h.moves hact with
  | askRegistration hmem hnew hact =>
    exact ⟨_, clientRun_of_clientActs hact hrun (Zloop.runs_eq_true.mpr ⟨_, hmem⟩)⟩
  | heartbeat hmem hact =>
    exact ⟨_, clientRun_of_clientActs hact hrun (Zloop.runs_eq_true.mpr ⟨_, hmem⟩)⟩
  | ping hmem hact => exact ⟨_, clientRun_of_clientActs hact hrun (enabled_ping hmem)⟩
  | call hcall hact => exact ⟨_, clientRun_of_clientActs hact hrun (enabled_of_isCall hcall)⟩
  | toClient hdown hact => exact ⟨_, clientRun_of_clientActs hact hrun rfl⟩
  | toBroker hi hact => exact ⟨cs, brokerActs_client hact ▸ hrun⟩
  | lose i => exact ⟨cs, hrun⟩
  | broker hen hother hact => exact ⟨cs, brokerActs_client hact ▸ hrun⟩

/-- The broker's part of a step. -/
theorem reachable_of_brokerActs [DecidableEq H] {cfg : Config} {e : Event}
    (hact : n.brokerActs env e = some n') (hreach : Reachable env cfg n.broker)
    (hen : e.enabled n.broker) : Reachable env cfg n'.broker := by
  obtain ⟨b, sends, hs, rfl⟩ := of_brokerActs hact
  obtain ⟨es, hrun⟩ := hreach
  exact ⟨_, hrun.step hen hs⟩

theorem clientActs_broker {e : ClientEvent} (hact : n.clientActs env e = some n') :
    n'.broker = n.broker := by
  obtain ⟨h, -, rfl⟩ := of_clientActs hact
  rfl

/-- **A session runs its broker.** -/
theorem Ok.reachable [DecidableEq H] (h : n.Ok) {cfg : Config}
    (hreach : Reachable env cfg n.broker) {e : SessionEvent} (hact : n.act env e = some n') :
    Reachable env cfg n'.broker := by
  cases h.moves hact with
  | askRegistration hmem hnew hact => exact clientActs_broker hact ▸ hreach
  | heartbeat hmem hact => exact clientActs_broker hact ▸ hreach
  | ping hmem hact => exact clientActs_broker hact ▸ hreach
  | call hcall hact => exact clientActs_broker hact ▸ hreach
  | toClient hdown hact => exact clientActs_broker hact ▸ hreach
  | toBroker hi hact => exact reachable_of_brokerActs hact hreach rfl
  | lose i => exact hreach
  | broker hen hother hact => exact reachable_of_brokerActs hact hreach hen

theorem Ok.parties [DecidableEq H] (h : n.Ok) {c₀ : DdClient} {cs : List ClientEvent}
    (hclient : DoubleDecker.clientRun env c₀ cs = some n.client) {cfg : Config}
    (hbroker : Reachable env cfg n.broker) {es : List SessionEvent}
    (hrun : n.run env es = some n') :
    (∃ cs, DoubleDecker.clientRun env c₀ cs = some n'.client) ∧ Reachable env cfg n'.broker := by
  induction es generalizing n cs with
  | nil =>
    cases hrun
    exact ⟨⟨cs, hclient⟩, hbroker⟩
  | cons e es ih =>
    obtain ⟨n₁, hact, hrun⟩ := Option.bind_eq_some_iff.mp hrun
    obtain ⟨cs₁, hclient₁⟩ := h.clientRun hclient hact
    exact ih (h.act hact) hclient₁ (h.reachable hbroker hact) hrun

/-- At the start the registration timer runs and nothing was sent. -/
theorem ok_start (heartbeatLoop : Nat) (broker : DdBroker H) (clientName : CStr) (keys : DdKeys)
    (cookie : Cookie) (nonce sockid : Frame) :
    (start (ddNew clientName keys cookie nonce heartbeatLoop) broker sockid).Ok where
  fits := DdClient.fits_ddNew _ _ _ _ _
  tokens s := by
    change 0 + (if s = sockid then 0 else 0) + 0 ≤ 1
    rw [ite_self]
    exact Nat.zero_le _
  known := ⟨List.mem_singleton_self _, fun _ hp => absurd hp List.not_mem_nil,
    fun _ hp => absurd hp List.not_mem_nil⟩
  registered hstate := by cases hstate

/-- **Registration state and timers agree** — of the registration and the heartbeat timers one runs,
the heartbeat just when the client is registered, and no socket received two `REGOK`s. -/
structure Agree (n : Session H) : Prop where
  one : ∃ timerId fn, n.client.loops = [(timerId, fn)] ∧
    (n.client.state = .registered ↔ fn = .sHeartbeat)
  regok : ∀ s, n.received.countP (regokOver s) ≤ 1

theorem Ok.agree (h : n.Ok) : n.Agree where
  one := by
    refine ⟨_, _, h.fits.loops, ?_⟩
    cases n.client.state <;> simp [DdClientState.loopFn]
  regok s := by
    have := h.tokens s
    unfold Session.tokens at this
    omega

end Session

/-- **The timers of a client agree with its state in every run** of it and its broker, over every
socket it opens. -/
theorem registration_timers [DecidableEq H] (env : Env H) (clientName : CStr) (keys : DdKeys)
    (cookie : Cookie) (nonce sockid : Frame) (heartbeatLoop : Nat) (broker : DdBroker H)
    (es : List SessionEvent) (n : Session H)
    (hrun : (Session.start (ddNew clientName keys cookie nonce heartbeatLoop) broker sockid).run env
      es = some n) : n.Agree :=
  ((Session.ok_start _ _ _ _ _ _ _).run hrun).agree

/-- **The parties of a session** are in states of a client and of a broker alone. -/
theorem session_parties [DecidableEq H] (env : Env H) (clientName : CStr) (keys : DdKeys)
    (cookie : Cookie) (nonce sockid : Frame) (heartbeatLoop : Nat) (cfg : Config)
    (broker : DdBroker H) (hbroker : Reachable env cfg broker) (es : List SessionEvent)
    (n : Session H)
    (hrun : (Session.start (ddNew clientName keys cookie nonce heartbeatLoop) broker sockid).run env
      es = some n) :
    (∃ cs, clientRun env (ddNew clientName keys cookie nonce heartbeatLoop) cs = some n.client) ∧
      Reachable env cfg n.broker := by
  have hstart : clientRun env (ddNew clientName keys cookie nonce heartbeatLoop) [] =
    some _ := rfl
  exact (Session.ok_start _ _ _ _ _ _ _).parties hstart hbroker hrun

/-! ### A client that comes back -/

/-- The client `x` of the tenant `a`. -/
def newcomer : DdClient := ddNew (text "x") ⟨false, text "hashA", [], [], [], []⟩ (cookieOf 0) []

/-- A broker that challenges with a nonce of 24 bytes. -/
def challenger : DdBroker (List UInt8) :=
  ddBrokerNew _ { demoConfig with nonce := List.replicate nonceBytes 0 }

/-- `ADDLCL`, `CHALL`, `CHALLOK` and `REGOK` arrive. -/
def handshakeArrives : List SessionEvent := [.toBroker 0, .toClient, .toBroker 0, .toClient]

/-- Four heartbeats without a message, and the broker forgets the client; the client opens a new
socket, the `PING` of the old one is lost and the client registers again. -/
def lapseAndReturn : List SessionEvent :=
  .fire (1, .sAskRegistration) [1] :: handshakeArrives ++
    List.replicate 4 (.fire (2, .sHeartbeat) []) ++ List.replicate 4 (.broker .checkCliTimeout) ++
    [.fire (3, .sAskRegistration) [2], .lose 0] ++ handshakeArrives

theorem lapseAndReturn_run :
    ((Session.start newcomer challenger [0]).run plainEnv lapseAndReturn).map (fun n =>
      (n.client.loops, decide (n.client.state = .registered), n.received.map Prod.fst)) =
    some ([(4, .sHeartbeat)], true, [[1], [1], [2], [2]]) := by
  decide +kernel

/-- A client that was registered twice. -/
theorem registration_timers_return : ∃ n : Session (List UInt8),
    (Session.start newcomer challenger [0]).run plainEnv lapseAndReturn = some n ∧
      n.client.state = .registered ∧ n.Agree := by
  obtain ⟨n, hn, hend⟩ := Option.map_eq_some_iff.mp lapseAndReturn_run
  simp only [Prod.mk.injEq] at hend
  exact ⟨n, hn, of_decide_eq_true hend.2.1, registration_timers _ _ _ _ _ _ _ _ _ n hn⟩

end DoubleDecker
