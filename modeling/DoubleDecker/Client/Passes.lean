import DoubleDecker.Broker.Auth
import DoubleDecker.Client.Sublist

/-!
# Client/Passes — the loops over the list of subscriptions

Every loop is `while ((item = zlistx_next(list)))` from where the cursor stands, and leaves it at
the head.  Only `sublist_delete` leaves it elsewhere: behind the items before the one it removed,
which the next loop then skips.
-/

namespace DoubleDecker

variable {H : Type} {env : Env H}

/-! ## What an event means for the list -/

/-- The call on the list a command makes. -/
def cmdCall : Cmd → List Frame → Option SublistCall
  | .subok, topic :: scope :: _ => some (.activate (CStr.ofBytes topic) (CStr.ofBytes scope))
  | .regok, cookieFrame :: _ => (readCookie cookieFrame).map .resubscribe
  | _, _ => none

/-- The call on the list an event makes. -/
def listCall (self : DdClient) : ClientEvent → Option SublistCall
  | .subscribe topic scope => some (.add topic (scopestr scope) false)
  | .unsubscribe topic scope => some (.delete topic (scopestr scope))
  | .message msg =>
    (dealerCmd msg).bind fun (cmd, body) => cmdCall cmd body
  | .heartbeat => if 3 < self.timeout + 1 then some .deactivateAll else none
  | _ => none

/-- The `SUB` for an entry. -/
def resubMsg (cookie : Cookie) (item : Ddtopic) : List Frame :=
  ddMsg .sub [cookie.1, item.topic.bytes, item.scope.bytes]

/-- A message is handled by its command. -/
theorem sOnClientMsg_of_dealerCmd {c : DdClient} {msg body : List Frame} {cmd : Cmd}
    (h : dealerCmd msg = some (cmd, body)) :
    sOnClientMsg env c msg = onClientCmd env { c with timeout := 0 } cmd body := by
  unfold dealerCmd at h
  split at h
  · split at h
    · next hversion =>
      obtain ⟨cmd', hcmd, heq⟩ := Option.map_eq_some_iff.mp h
      obtain ⟨code, hcode, hof⟩ := Option.bind_eq_some_iff.mp hcmd
      cases heq
      simp only [sOnClientMsg, hversion, ne_eq, not_true_eq_false, if_false, hcode, hof]
    · cases h
  · cases h

/-- A message without a command is ignored, if the client survives it. -/
theorem sOnClientMsg_of_dealerCmd_none {c : DdClient} {msg : List Frame} {h : Handled}
    (hcmd : dealerCmd msg = none) (hs : sOnClientMsg env c msg = some h) :
    h = { self := { c with timeout := 0 } } := by
  unfold sOnClientMsg at hs
  split at hs
  · split at hs
    · cases hs
    · next hread =>
      split at hs
      · cases hs
        rfl
      · next hversion =>
        split at hs
        · cases hs
        · next hcode =>
          split at hs
          · split at hs
            · cases hs
              rfl
            · cases hs
          · next hof =>
            rw [dealerCmd, hread, if_pos (congrArg some (not_not.mp hversion)), hcode,
              Option.bind_some, hof] at hcmd
            cases hcmd
  · cases hs
    rfl

/-- The message is a `REGOK` that is taken. -/
def registers : Cmd → List Frame → Bool
  | .regok, cookieFrame :: _ => (readCookie cookieFrame).isSome
  | _, _ => false

/-- **What a command of the broker can do**, one case for each handler that does anything. -/
inductive ClientHandles (c : DdClient) : Cmd → List Frame → Handled → Prop
  | quiet {cmd : Cmd} {body : List Frame} {h : Handled} (hcall : cmdCall cmd body = none)
      (hregisters : registers cmd body = false) (hpong : cmd ≠ .pong) (hself : h.self = c)
      (hsends : h.sends = []) : ClientHandles c cmd body h
  | chall {body : List Frame} {h : Handled} (frames : List Frame) (hself : h.self = c)
      (hsends : h.sends = [ddMsg .challok frames]) : ClientHandles c .chall body h
  | regok {cookieFrame : Frame} {cookie : Cookie} (hcookie : readCookie cookieFrame = some cookie)
      (rest : List Frame) : ClientHandles c .regok (cookieFrame :: rest)
        { self := { c with
            cookie, sublist := (sublistResubscribe c.sublist cookie).1, state := .registered
            loop := (c.loop.timer .sHeartbeat).timerEnd c.registrationLoop
            heartbeatLoop := c.loop.nextTimerId }
          sends := ddMsg .ping [cookie.1] :: (sublistResubscribe c.sublist cookie).2
          calls := [.onReg] }
  | pong (body : List Frame) :
      ClientHandles c .pong body { self := { c with loop := c.loop.timer .sPing } }
  | subok (topic scope : Frame) (rest : List Frame) :
    ClientHandles c .subok (topic :: scope :: rest)
      { self := { c with
          sublist := sublistActivate c.sublist (CStr.ofBytes topic) (CStr.ofBytes scope) } }

theorem onClientCmd_clientHandles {c : DdClient} {cmd : Cmd} {body : List Frame} {h : Handled}
    (hs : onClientCmd env c cmd body = some h) : ClientHandles c cmd body h := by
  cases cmd with
  | data =>
    simp only [onClientCmd, cbData] at hs
    split at hs
    · obtain ⟨_, -, rfl⟩ := Option.map_eq_some_iff.mp hs
      exact .quiet rfl rfl (by decide) rfl rfl
    · cases hs
  | pub =>
    simp only [onClientCmd, cbPub] at hs
    split at hs
    · obtain ⟨_, -, rfl⟩ := Option.map_eq_some_iff.mp hs
      exact .quiet rfl rfl (by decide) rfl rfl
    · cases hs
  | chall =>
    simp only [onClientCmd, cbChall] at hs
    split at hs
    · cases hs
    · obtain ⟨o, -, rfl⟩ := Option.map_eq_some_iff.mp hs
      cases o with
      | none => exact .quiet rfl rfl (by decide) rfl rfl
      | some decrypted => exact .chall _ rfl rfl
  | error =>
    simp only [onClientCmd, cbError] at hs
    split at hs
    · cases hs
      exact .quiet rfl rfl (by decide) rfl rfl
    · cases hs
    · obtain ⟨_, -, rfl⟩ := Option.map_eq_some_iff.mp hs
      exact .quiet rfl rfl (by decide) rfl rfl
  | regok =>
    simp only [onClientCmd, cbRegok] at hs
    split at hs
    · cases hs
      exact .quiet rfl rfl (by decide) rfl rfl
    · obtain ⟨cookie, hcookie, rfl⟩ := Option.map_eq_some_iff.mp hs
      exact .regok hcookie _
  | subok =>
    simp only [onClientCmd, cbSubok] at hs
    split at hs
    · cases hs
      exact .subok _ _ _
    · cases hs
  | pong =>
    cases hs
    exact .pong body
  | _ =>
    cases hs
    exact .quiet rfl rfl (by decide) rfl rfl

/-- **What becomes of the client**: a command changes the list by its call, a `REGOK` registers the
client and starts a heartbeat for the registration, a `PONG` starts a ping, and the rest stays. -/
structure Obeys (c : DdClient) (cmd : Cmd) (body : List Frame) (c' : DdClient) : Prop where
  sublist : c'.sublist = (cmdCall cmd body).elim c.sublist fun call => call.exec c.sublist
  nonce : c'.nonce = c.nonce
  keys : c'.keys = c.keys
  clientName : c'.clientName = c.clientName
  state : c'.state = if registers cmd body then .registered else c.state
  loop : c'.loop =
    if registers cmd body then (c.loop.timer .sHeartbeat).timerEnd c.registrationLoop
    else if cmd = .pong then c.loop.timer .sPing else c.loop
  registrationLoop : c'.registrationLoop = c.registrationLoop
  heartbeatLoop : c'.heartbeatLoop =
    if registers cmd body then c.loop.nextTimerId else c.heartbeatLoop

theorem onClientCmd_obeys {c : DdClient} {cmd : Cmd} {body : List Frame} {h : Handled}
    (hs : onClientCmd env c cmd body = some h) : Obeys c cmd body h.self := by
  cases onClientCmd_clientHandles hs with
  | quiet hcall hregisters hpong hself hsends =>
    rw [hself]
    exact ⟨by rw [hcall]; rfl, rfl, rfl, rfl, by rw [hregisters]; rfl,
      by rw [hregisters, if_neg hpong]; rfl, rfl, by rw [hregisters]; rfl⟩
  | chall frames hself hsends =>
    rw [hself]
    exact ⟨rfl, rfl, rfl, rfl, rfl, rfl, rfl, rfl⟩
  | regok hcookie rest =>
    refine ⟨?_, rfl, rfl, rfl, ?_, ?_, rfl, ?_⟩
    · simp only [cmdCall, hcookie]
      rfl
    all_goals simp [registers, hcookie]
  | pong body => exact ⟨rfl, rfl, rfl, rfl, rfl, rfl, rfl, rfl⟩
  | subok topic scope rest => exact ⟨rfl, rfl, rfl, rfl, rfl, rfl, rfl, rfl⟩

/-- **An event changes the list by its call**, if it makes one. -/
theorem clientStep_sublist {c : DdClient} {e : ClientEvent} {h : Handled}
    (hs : clientStep env c e = some h) :
    h.self.sublist = (listCall c e).elim c.sublist fun call => call.exec c.sublist := by
  cases e with
  | subscribe topic scope =>
    cases hs
    rfl
  | unsubscribe topic scope =>
    cases hs
    rfl
  | publish topic message =>
    obtain ⟨-, rfl⟩ | ⟨key, -, -, rfl⟩ := clientStep_publish hs
    · rfl
    · rfl
  | notify target message =>
    obtain ⟨-, rfl⟩ := clientStep_notify hs
    rfl
  | message msg =>
    rw [clientStep] at hs
    cases hcmd : dealerCmd msg with
    | none =>
      rw [sOnClientMsg_of_dealerCmd_none hcmd hs]
      simp [listCall, hcmd]
    | some p =>
      obtain ⟨cmd, body⟩ := p
      rw [sOnClientMsg_of_dealerCmd hcmd] at hs
      rw [(onClientCmd_obeys hs).sublist]
      simp [listCall, hcmd]
  | askRegistration =>
    cases hs
    rfl
  | heartbeat =>
    cases hs
    unfold sClientHeartbeat listCall
    by_cases htimeout : 3 < c.timeout + 1
    · simp only [htimeout, if_true]
      rfl
    · simp only [htimeout, if_false]
      rfl
  | ping =>
    cases hs
    rfl

namespace SublistCall

/-- **A call whose loop is full** — `sublist_resubscribe` starts at the head, and the other loops
would change nothing in what they skip. -/
def complete (l : Zlistx Ddtopic) : SublistCall → Bool
  | add topic scope active =>
    l.skipped.all fun item => item.entry ≠ (topic, scope) || item.active = active
  | delete _ _ => true
  | activate topic scope => l.skipped.all fun item => item.entry ≠ (topic, scope) || item.active
  | deactivateAll => l.skipped.all fun item => !item.active
  | resubscribe _ => l.cursor = 0

/-- Whether an entry is confirmed after a call. -/
def confirm (confirmed : CStr × CStr → Bool) : SublistCall → CStr × CStr → Bool
  | add topic scope active, e => if e = (topic, scope) then active else confirmed e
  | delete _ _, e => confirmed e
  | activate topic scope, e => e = (topic, scope) || confirmed e
  | deactivateAll, _ => false
  | resubscribe _, e => confirmed e

end SublistCall

variable (env) in
/-- Whether a `SUBOK` came for a topic and a scope since they were added or last deactivated. -/
def confirmedAfter (c₀ : DdClient) : List ClientEvent → CStr × CStr → Bool
  | [] => fun _ => false
  | e :: es =>
    match (clientRun env c₀ es).bind (listCall · e) with
    | some call => call.confirm (confirmedAfter c₀ es)
    | none => confirmedAfter c₀ es

/-- **An entry is active just when it is confirmed.** -/
def Marked (confirmed : CStr × CStr → Bool) (l : Zlistx Ddtopic) : Prop :=
  ∀ item ∈ l.items, item.active = confirmed item.entry

section

variable {l : Zlistx Ddtopic} {confirmed confirmed' : CStr × CStr → Bool}

/-- A loop that marks what it visits right: what it skips decides. -/
theorem marked_pass_iff {f : Ddtopic → Ddtopic} (h : Marked confirmed l)
    (hf : ∀ item, item.active = confirmed item.entry →
      (f item).active = confirmed' (f item).entry) :
    Marked confirmed' (l.pass f) ↔ ∀ item ∈ l.skipped, item.active = confirmed' item.entry := by
  constructor
  · intro hpass item hitem
    exact hpass item (by rw [Zlistx.items_pass]; exact List.mem_append_left _ hitem)
  · intro hskip item hitem
    rw [Zlistx.items_pass] at hitem
    obtain hitem | hitem := List.mem_append.mp hitem
    · exact hskip item hitem
    · obtain ⟨item', hitem', rfl⟩ := List.mem_map.mp hitem
      exact hf item' (h item' (List.mem_of_mem_drop hitem'))

theorem Marked.skipped (h : Marked confirmed l) {item : Ddtopic} (hitem : item ∈ l.skipped) :
    item.active = confirmed item.entry :=
  h item (List.mem_of_mem_take hitem)

/-- A loop that marks one entry. -/
theorem marked_mark_iff (h : Marked confirmed l) {topic scope : CStr} {active : Bool}
    (hconfirmed : ∀ e, confirmed' e = if e = (topic, scope) then active else confirmed e) :
    Marked confirmed' (l.pass fun item =>
      if item.topic = topic ∧ item.scope = scope then { item with active := active } else item) ↔
      ∀ item ∈ l.skipped, item.entry = (topic, scope) → item.active = active := by
  have hsame : ∀ item : Ddtopic, item.topic = topic ∧ item.scope = scope ↔
      item.entry = (topic, scope) := fun item => by rw [Ddtopic.entry, Prod.mk.injEq]
  rw [marked_pass_iff h fun item hitem => ?_]
  · refine forall₂_congr fun item hitem => ?_
    rw [hconfirmed]
    by_cases hentry : item.entry = (topic, scope) <;> simp [hentry, h.skipped hitem]
  · rw [hconfirmed]
    by_cases hentry : item.entry = (topic, scope)
    · rw [if_pos ((hsame item).mpr hentry)]
      exact (if_pos hentry).symm
    · rw [if_neg fun heq => hentry ((hsame item).mp heq), if_neg hentry, hitem]

/-- **One `sublist_add`.** -/
theorem Marked.add_iff (h : Marked confirmed l) {topic scope : CStr} {active : Bool} :
    Marked ((SublistCall.add topic scope active).confirm confirmed)
        (sublistAdd l topic scope active) ↔
      (SublistCall.add topic scope active).complete l := by
  have hpass := @marked_mark_iff l _ _ h topic scope active fun e => rfl
  have hcomplete : (SublistCall.add topic scope active).complete l ↔
      ∀ item ∈ l.skipped, item.entry = (topic, scope) → item.active = active := by
    simp [SublistCall.complete, imp_iff_not_or]
  unfold sublistAdd
  simp only [Bool.and_eq_true, decide_eq_true_eq]
  rw [hcomplete, ← hpass]
  split
  · rfl
  · -- the new entry is marked as it is added
    refine ⟨fun hnew item hitem => hnew item (List.mem_cons_of_mem _ hitem),
      fun hold item hitem => ?_⟩
    obtain rfl | hitem := List.mem_cons.mp hitem
    · simp [SublistCall.confirm, Ddtopic.entry]
    · exact hold item hitem

/-- **One `sublist_activate`.** -/
theorem Marked.activate_iff (h : Marked confirmed l) {topic scope : CStr} :
    Marked ((SublistCall.activate topic scope).confirm confirmed)
        (sublistActivate l topic scope) ↔
      (SublistCall.activate topic scope).complete l := by
  rw [sublistActivate, marked_mark_iff h fun e => ?_]
  · simp [SublistCall.complete, imp_iff_not_or]
  · by_cases he : e = (topic, scope) <;> simp [SublistCall.confirm, he]

/-- **One `sublist_deactivate_all`.** -/
theorem Marked.deactivateAll_iff (h : Marked confirmed l) :
    Marked (SublistCall.deactivateAll.confirm confirmed) (sublistDeactivateAll l) ↔
      SublistCall.deactivateAll.complete l := by
  rw [sublistDeactivateAll, marked_pass_iff h fun item hitem => rfl]
  simp [SublistCall.complete, SublistCall.confirm]

/-- A deletion marks nothing. -/
theorem Marked.delete (h : Marked confirmed l) (topic : CStr) :
    Marked confirmed (sublistDelete l topic) := by
  obtain ⟨-, hsame⟩ | ⟨u, item, v, hitems, -, -, hleft, -⟩ := @sublistDelete_cases l topic
  · rwa [hsame]
  · intro x hx
    rw [hleft] at hx
    refine h x ?_
    rw [hitems]
    exact (List.Sublist.append_left (List.sublist_cons_self _ _) _).subset hx

end

/-! ## Every run of a client -/

variable (env) in
/-- **The loops so far were full** — an entry is active just when it is confirmed, and if the last
event was a disconnection none is, or if it was a `REGOK` a `SUB` was sent for each. -/
structure FullAfter (c₀ : DdClient) (es : List ClientEvent) (c : DdClient) : Prop where
  active : ∀ item ∈ c.sublist.items, item.active = confirmedAfter env c₀ es item.entry
  discon : ∀ e es' c', es = e :: es' → clientRun env c₀ es' = some c' →
    listCall c' e = some .deactivateAll → ∀ item ∈ c.sublist.items, item.active = false
  regok : ∀ e es' c' h cookie, es = e :: es' → clientRun env c₀ es' = some c' →
    clientStep env c' e = some h → listCall c' e = some (.resubscribe cookie) →
    h.sends = ddMsg .ping [cookie.1] :: c'.sublist.items.map (resubMsg cookie)

section

variable {c₀ c : DdClient} {es : List ClientEvent} {e : ClientEvent} {handled : Handled}

/-- What a `REGOK` sends: the loop starts where the cursor stands. -/
theorem sends_of_resubscribe {cookie : Cookie} (hs : clientStep env c e = some handled)
    (hcall : listCall c e = some (.resubscribe cookie)) :
    handled.sends = ddMsg .ping [cookie.1] :: c.sublist.rest.map (resubMsg cookie) := by
  cases e with
  | message msg =>
    obtain ⟨⟨cmd, body⟩, hcmd, hbody⟩ := Option.bind_eq_some_iff.mp hcall
    rw [clientStep, sOnClientMsg_of_dealerCmd hcmd] at hs
    simp only [cmdCall] at hbody
    split at hbody
    · cases hbody
    · next cookieFrame rest =>
      obtain ⟨_, hread, heq⟩ := Option.map_eq_some_iff.mp hbody
      cases heq
      simp only [onClientCmd, cbRegok, hread, Option.map_some, Option.some.injEq] at hs
      subst hs
      rfl
    · cases hbody
  | heartbeat =>
    rw [listCall] at hcall
    split at hcall <;> cases hcall
  | _ => simp [listCall] at hcall

theorem confirmedAfter_cons (hrun : clientRun env c₀ es = some c) :
    confirmedAfter env c₀ (e :: es) = (listCall c e).elim (confirmedAfter env c₀ es)
      fun call => call.confirm (confirmedAfter env c₀ es) := by
  rw [confirmedAfter, hrun, Option.bind_some]
  cases listCall c e <;> rfl

/-- What is to be shown after an event. -/
theorem fullAfter_cons (hrun : clientRun env c₀ es = some c)
    (hs : clientStep env c e = some handled) : FullAfter env c₀ (e :: es) handled.self ↔
      Marked (confirmedAfter env c₀ (e :: es)) handled.self.sublist ∧
      (listCall c e = some .deactivateAll →
        ∀ item ∈ handled.self.sublist.items, item.active = false) ∧
      ∀ cookie, listCall c e = some (.resubscribe cookie) →
        handled.sends = ddMsg .ping [cookie.1] :: c.sublist.items.map (resubMsg cookie) := by
  constructor
  · exact fun h => ⟨h.active, h.discon e es c rfl hrun, fun cookie =>
      h.regok e es c _ cookie rfl hrun hs⟩
  · rintro ⟨hactive, hdiscon, hregok⟩
    refine ⟨hactive, fun e' es' c' heq hrun' => ?_, fun e' es' c' h' cookie heq hrun' hs' => ?_⟩
    · cases heq
      cases hrun.symm.trans hrun'
      exact hdiscon
    · cases heq
      cases hrun.symm.trans hrun'
      cases hs.symm.trans hs'
      exact hregok cookie

/-- **One event.** -/
theorem FullAfter.cons_iff (h : FullAfter env c₀ es c) (hrun : clientRun env c₀ es = some c)
    (hs : clientStep env c e = some handled) : FullAfter env c₀ (e :: es) handled.self ↔
      ∀ call, listCall c e = some call → call.complete c.sublist := by
  have hmarked : Marked (confirmedAfter env c₀ es) c.sublist := h.active
  rw [fullAfter_cons hrun hs, confirmedAfter_cons hrun, clientStep_sublist hs]
  cases hcall : listCall c e with
  | none => simpa using hmarked
  | some call =>
    simp only [Option.elim_some, Option.some.injEq, forall_eq']
    cases call with
    | add topic scope active => simpa [SublistCall.exec] using hmarked.add_iff
    | delete topic scope =>
      have hdelete : Marked ((SublistCall.delete topic scope).confirm (confirmedAfter env c₀ es))
          ((SublistCall.delete topic scope).exec c.sublist) := hmarked.delete topic
      simpa [SublistCall.complete] using hdelete
    | activate topic scope => simpa [SublistCall.exec] using hmarked.activate_iff
    | deactivateAll =>
      rw [← hmarked.deactivateAll_iff]
      -- none is confirmed then
      refine ⟨fun hall => hall.1, fun hall => ⟨hall, fun _ => hall, fun _ heq => by cases heq⟩⟩
    | resubscribe cookie =>
      have hsends := sends_of_resubscribe hs hcall
      have hsame : Marked ((SublistCall.resubscribe cookie).confirm (confirmedAfter env c₀ es))
          ((SublistCall.resubscribe cookie).exec c.sublist) :=
        (marked_pass_iff hmarked fun item hitem => hitem).mpr fun item hitem =>
          hmarked.skipped hitem
      have hcomplete : (SublistCall.resubscribe cookie).complete c.sublist ↔
          c.sublist.rest = c.sublist.items := by
        rw [Zlistx.rest_eq_items_iff]
        exact decide_eq_true_iff
      rw [hcomplete]
      constructor
      · rintro ⟨-, -, hregok⟩
        have hall := hregok cookie rfl
        rw [hsends] at hall
        have hlen := congrArg List.length (List.cons.inj hall).2
        rw [List.length_map, List.length_map] at hlen
        exact (List.drop_sublist _ _).eq_of_length hlen
      · intro hrest
        refine ⟨hsame, fun heq => (by cases heq), fun cookie' heq => ?_⟩
        cases heq
        rw [hsends, hrest]

end

/-- **Which loops are full** — in every run of a client: each `REGOK` is followed by one `SUB` for
every entry, each disconnection leaves every entry inactive, and an entry is active just when a
`SUBOK` came for it since it was added or deactivated, just when every loop starts at the head or
would change nothing in what it skips. -/
theorem fullAfter_iff (env : Env H) (clientName : CStr) (keys : DdKeys) (cookie : Cookie)
    (nonce : Frame) (es : List ClientEvent) :
    (∀ es', es' <:+ es → ∀ c, clientRun env (ddNew clientName keys cookie nonce) es' = some c →
      FullAfter env (ddNew clientName keys cookie nonce) es' c) ↔
    ∀ e es', e :: es' <:+ es → ∀ c c',
      clientRun env (ddNew clientName keys cookie nonce) es' = some c →
      clientRun env (ddNew clientName keys cookie nonce) (e :: es') = some c' →
      ∀ call, listCall c e = some call → call.complete c.sublist := by
  refine forall_suffix_iff (fun c hc => ?_) (fun e es' h => ?_) es
  · cases hc
    exact ⟨fun item hitem => absurd hitem List.not_mem_nil, fun _ _ _ heq => (by cases heq),
      fun _ _ _ _ _ heq => (by cases heq)⟩
  · -- the state before the event, and what it leaves
    have hstep : ∀ {c c'}, clientRun env (ddNew clientName keys cookie nonce) es' = some c →
        clientRun env (ddNew clientName keys cookie nonce) (e :: es') = some c' →
        ∃ handled, clientStep env c e = some handled ∧ handled.self = c' := by
      intro c c' hc hc'
      rw [clientRun, hc, Option.bind_some] at hc'
      split at hc'
      · obtain ⟨handled, hs, rfl⟩ := Option.map_eq_some_iff.mp hc'
        exact ⟨handled, hs, rfl⟩
      · cases hc'
    constructor
    · intro hnext c c' hc hc'
      obtain ⟨handled, hs, rfl⟩ := hstep hc hc'
      exact ((h c hc).cons_iff hc hs).mp (hnext _ hc')
    · intro hcomplete c' hc'
      obtain ⟨c, hc, -⟩ := Option.bind_eq_some_iff.mp hc'
      obtain ⟨handled, hs, rfl⟩ := hstep hc hc'
      exact ((h c hc).cons_iff hc hs).mpr (hcomplete c _ hc hc')

/-! ### A loop that starts in the middle -/

/-- Before it is registered the client subscribes to `x` and `y` and gives up `x`. -/
def giveUpFirst : List ClientEvent :=
  [.message (ddMsg .regok [(cookieOf 65).1]), .unsubscribe (text "x") (text "all"),
    .subscribe (text "y") (text "all"), .subscribe (text "x") (text "all")]

/-- The client that gives up `x`. -/
def unregistered : DdClient :=
  ddNew (text "x") ⟨false, text "hashA", [], [], [], []⟩ (cookieOf 0) []
/-- One entry is left, and the `REGOK` sends a `PING` only. -/
theorem giveUpFirst_run : (clientRun plainEnv unregistered giveUpFirst.tail).map (fun c =>
    (c.sublist.items.length, (clientStep plainEnv c (.message
      (ddMsg .regok [(cookieOf 65).1]))).map fun h => h.sends.length,
      decide (listCall c (.message (ddMsg .regok [(cookieOf 65).1])) =
        some (.resubscribe (cookieOf 65))))) = some (1, some 1, true) := by
  decide

/-- **Not every loop is full**: the `REGOK` is not followed by the `SUB` for `y`. -/
theorem not_fullAfter : ¬ ∀ (H : Type) (env : Env H) (clientName : CStr) (keys : DdKeys)
    (cookie : Cookie) (nonce : Frame) (es es' : List ClientEvent), es' <:+ es → ∀ c,
    clientRun env (ddNew clientName keys cookie nonce) es' = some c →
    FullAfter env (ddNew clientName keys cookie nonce) es' c := by
  intro hall
  obtain ⟨c, hc, hfacts⟩ := Option.map_eq_some_iff.mp giveUpFirst_run
  simp only [Prod.mk.injEq, decide_eq_true_eq] at hfacts
  obtain ⟨hone, hsends, hcall⟩ := hfacts
  obtain ⟨handled, hs, hping⟩ := Option.map_eq_some_iff.mp hsends
  have hrun : clientRun plainEnv unregistered giveUpFirst = some handled.self := by
    show (clientRun plainEnv unregistered giveUpFirst.tail).bind _ = _
    rw [hc]
    simp only [Option.bind_some, ClientEvent.enabled, if_true, hs, Option.map_some]
  have hfull := hall _ plainEnv _ _ _ _ giveUpFirst _ (List.suffix_refl _) _ hrun
  have hsubs := hfull.regok _ _ c handled (cookieOf 65) rfl hc hs hcall
  rw [hsubs, List.length_cons, List.length_map, hone] at hping
  cases hping

end DoubleDecker
