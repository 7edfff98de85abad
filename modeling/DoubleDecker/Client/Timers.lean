import DoubleDecker.Client.Passes

/-!
# Client/Timers — the timers of a client

    UNREG ──REGOK──▸ REGISTERED        start `s_heartbeat`, end `registration_loop`
    REGISTERED ──lapse──▸ UNREG        start `s_ask_registration`, end `heartbeat_loop`

Each handler starts one timer and ends the one whose id is in the other field, in whatever state the
client is.  As long as a `REGOK` comes in `UNREG` only, one timer repeats, that of the state
(`DdClient.Fits`): then the first handler runs in `UNREG` only and the second in `REGISTERED` only.
A `REGOK` for a registered client leaves it a heartbeat too many.
-/

namespace DoubleDecker

variable {H : Type} {env : Env H} {c c' : DdClient} {e : ClientEvent} {h : Handled}

/-- The callback that repeats in a state. -/
def DdClientState.loopFn : DdClientState → TimerFn
  | .unreg => .sAskRegistration
  | .registered => .sHeartbeat

namespace DdClient

variable (c : DdClient)

/-- The registration and heartbeat timers that run. -/
def loops : List (Nat × TimerFn) := c.loop.timers.filter fun timer => timer.2 ≠ .sPing

/-- The field with the id of the timer that repeats in the state. -/
def loopId : Nat :=
  match c.state with
  | .unreg => c.registrationLoop
  | .registered => c.heartbeatLoop

/-- **The timers fit the state** — one repeats, that of the state and under the id of its field. -/
def Fits : Prop :=
  ∃ pings : List Nat, c.loop.timers.Perm
    ((c.loopId, c.state.loopFn) :: pings.map fun id => (id, .sPing))

end DdClient

/-! ## What an event leaves of the timers -/

/-- **Two clients with the same timers.** -/
structure SameTimers (c c' : DdClient) : Prop where
  state : c'.state = c.state
  loop : c'.loop = c.loop
  registrationLoop : c'.registrationLoop = c.registrationLoop
  heartbeatLoop : c'.heartbeatLoop = c.heartbeatLoop

/-- The calls of the application. -/
def ClientEvent.isCall : ClientEvent → Bool
  | .subscribe _ _ | .unsubscribe _ _ | .publish _ _ | .notify _ _ => true
  | _ => false

/-- The event is a `REGOK` that is taken. -/
def ClientEvent.registers : ClientEvent → Bool
  | .message msg => (dealerCmd msg).any fun p => DoubleDecker.registers p.1 p.2
  | _ => false

/-- **A call of the application starts and ends no timer.** -/
theorem sameTimers_of_isCall (hcall : e.isCall) (hs : clientStep env c e = some h) :
    SameTimers c h.self := by
  cases e with
  | subscribe topic scope =>
    cases hs
    exact ⟨rfl, rfl, rfl, rfl⟩
  | unsubscribe topic scope =>
    cases hs
    exact ⟨rfl, rfl, rfl, rfl⟩
  | publish topic message =>
    obtain ⟨-, rfl⟩ | ⟨key, -, -, rfl⟩ := clientStep_publish hs
    · exact ⟨rfl, rfl, rfl, rfl⟩
    · exact ⟨rfl, rfl, rfl, rfl⟩
  | notify target message =>
    obtain ⟨-, rfl⟩ := clientStep_notify hs
    exact ⟨rfl, rfl, rfl, rfl⟩
  | _ => cases hcall

/-- **What a command sends**: a challenge is met, and nothing else that is sent asks for a
registration. -/
theorem onClientCmd_sends {cmd : Cmd} {body : List Frame}
    (hs : onClientCmd env c cmd body = some h) :
    (cmd = .chall ∧ ∃ body, h.sends = [ddMsg .challok body]) ∨
      ∀ m ∈ h.sends, ∃ cmd' body, m = ddMsg cmd' body ∧ (cmd' = .ping ∨ cmd' = .sub) := by
  cases onClientCmd_clientHandles hs with
  | quiet hcall hregisters hpong hself hsends =>
    refine Or.inr fun m hm => ?_
    rw [hsends] at hm
    cases hm
  | chall frames hself hsends => exact Or.inl ⟨rfl, frames, hsends⟩
  | regok hcookie rest =>
    refine Or.inr fun m hm => ?_
    obtain rfl | hm := List.mem_cons.mp hm
    · exact ⟨_, _, rfl, Or.inl rfl⟩
    · obtain ⟨item, -, rfl⟩ := List.mem_map.mp hm
      exact ⟨_, _, rfl, Or.inr rfl⟩
  | pong body => exact Or.inr fun _ hm => absurd hm List.not_mem_nil
  | subok topic scope rest => exact Or.inr fun _ hm => absurd hm List.not_mem_nil

/-! ## The timers fit -/

namespace DdClient

/-- At the start the registration timer runs. -/
theorem fits_ddNew (clientName : CStr) (keys : DdKeys) (cookie : Cookie) (nonce : Frame)
    (heartbeatLoop : Nat) : (ddNew clientName keys cookie nonce heartbeatLoop).Fits :=
  ⟨[], .refl _⟩

/-- **One loop runs**, that of the state. -/
theorem Fits.loops (h : c.Fits) : c.loops = [(c.loopId, c.state.loopFn)] := by
  obtain ⟨pings, hperm⟩ := h
  have hloops := hperm.filter fun timer => timer.2 ≠ .sPing
  have hloop : c.state.loopFn ≠ .sPing := by cases c.state <;> decide
  have hpings : (pings.map fun id => (id, TimerFn.sPing)).filter
      (fun timer => timer.2 ≠ .sPing) = [] := List.filter_eq_nil_iff.mpr (by simp)
  rw [List.filter_cons_of_pos (by simpa using hloop), hpings] at hloops
  exact List.perm_singleton.mp hloops

/-- A timer that runs is the loop of the state or a ping. -/
theorem Fits.of_mem (h : c.Fits) {timer : Nat × TimerFn} (hmem : timer ∈ c.loop.timers) :
    timer.2 = c.state.loopFn ∨ timer.2 = .sPing := by
  obtain ⟨pings, hperm⟩ := h
  obtain rfl | hping := List.mem_cons.mp (hperm.mem_iff.mp hmem)
  · exact Or.inl rfl
  · obtain ⟨id, -, rfl⟩ := List.mem_map.mp hping
    exact Or.inr rfl

/-- The registration timer runs in `UNREG`. -/
theorem Fits.unreg_of_mem (h : c.Fits) {id : Nat}
    (hmem : (id, .sAskRegistration) ∈ c.loop.timers) : c.state = .unreg := by
  have hfn := h.of_mem hmem
  cases hstate : c.state with
  | unreg => rfl
  | registered => simp [hstate, DdClientState.loopFn] at hfn

/-- The heartbeat timer runs in `REGISTERED`. -/
theorem Fits.registered_of_mem (h : c.Fits) {id : Nat}
    (hmem : (id, .sHeartbeat) ∈ c.loop.timers) : c.state = .registered := by
  have hfn := h.of_mem hmem
  cases hstate : c.state with
  | unreg => simp [hstate, DdClientState.loopFn] at hfn
  | registered => rfl

/-- A client with the same timers. -/
theorem Fits.congr (h : c.Fits) (hsame : SameTimers c c') : c'.Fits := by
  obtain ⟨pings, hperm⟩ := h
  refine ⟨pings, ?_⟩
  rwa [loopId, hsame.state, hsame.loop, hsame.registrationLoop, hsame.heartbeatLoop]

/-- **A ping runs once.** -/
theorem Fits.ping (h : c.Fits) {id : Nat} (hmem : (id, .sPing) ∈ c.loop.timers) :
    (sPing c id).self.Fits := by
  obtain ⟨pings, hperm⟩ := h
  have hid : id ∈ pings := by
    obtain heq | hping := List.mem_cons.mp (hperm.mem_iff.mp hmem)
    · cases hstate : c.state <;> simp [hstate, DdClientState.loopFn] at heq
    · obtain ⟨id', hid', heq⟩ := List.mem_map.mp hping
      cases heq
      exact hid'
  -- the pings but this one
  have hsplit : (pings.map fun id => (id, TimerFn.sPing)).Perm
      ((id, .sPing) :: (pings.erase id).map fun id => (id, .sPing)) :=
    (List.perm_cons_erase hid).map _
  exact ⟨pings.erase id, Zloop.timers_timerEnd
    (hperm.trans ((hsplit.cons _).trans (.swap (id, TimerFn.sPing) _ _)))⟩

/-- A `REGOK` in `UNREG`: the heartbeat takes the place of the registration. -/
theorem Fits.regok (h : c.Fits) (hunreg : c.state = .unreg) {cmd : Cmd} {body : List Frame}
    (hreg : registers cmd body) (hobeys : Obeys c cmd body c') : c'.Fits := by
  obtain ⟨pings, hperm⟩ := h
  have hstate := hobeys.state
  rw [if_pos hreg] at hstate
  rw [loopId, hunreg] at hperm
  refine ⟨pings, ?_⟩
  rw [loopId, hstate, hobeys.loop, if_pos hreg, hobeys.heartbeatLoop, if_pos hreg]
  exact Zloop.timers_replace hperm _

/-- A `PONG` starts a ping. -/
theorem Fits.pong (h : c.Fits) {body : List Frame} (hobeys : Obeys c .pong body c') : c'.Fits := by
  obtain ⟨pings, hperm⟩ := h
  have hreg : registers .pong body = false := rfl
  refine ⟨c.loop.nextTimerId :: pings, ?_⟩
  rw [loopId, hobeys.state, hobeys.loop, hobeys.registrationLoop, hobeys.heartbeatLoop, hreg]
  exact (Zloop.timers_timer hperm _).trans (.swap _ _ _)

/-- **A command**, if it registers in `UNREG` only. -/
theorem Fits.cmd (h : c.Fits) {cmd : Cmd} {body : List Frame}
    (hunreg : registers cmd body → c.state = .unreg) (hobeys : Obeys c cmd body c') : c'.Fits := by
  by_cases hreg : registers cmd body
  · exact h.regok (hunreg hreg) hreg hobeys
  · by_cases hpong : cmd = .pong
    · subst hpong
      exact h.pong hobeys
    · refine h.congr ⟨hobeys.state.trans (if_neg hreg), ?_, hobeys.registrationLoop,
        hobeys.heartbeatLoop.trans (if_neg hreg)⟩
      rw [hobeys.loop, if_neg hreg, if_neg hpong]

/-- **A heartbeat**, which runs in `REGISTERED` only. -/
theorem Fits.heartbeat (h : c.Fits) (hstate : c.state = .registered) :
    (sClientHeartbeat c).self.Fits := by
  unfold sClientHeartbeat
  by_cases hlapse : 3 < c.timeout + 1
  · simp only [hlapse, if_true]
    obtain ⟨pings, hperm⟩ := h
    rw [loopId, hstate] at hperm
    exact ⟨pings, Zloop.timers_replace hperm .sAskRegistration⟩
  · simp only [hlapse, if_false]
    exact h.congr ⟨rfl, rfl, rfl, rfl⟩

/-- **An event that can come**, if it registers in `UNREG` only. -/
theorem Fits.step (hfits : c.Fits) (hen : e.enabled c) (hunreg : e.registers → c.state = .unreg)
    (hs : clientStep env c e = some h) : h.self.Fits := by
  cases e with
  | subscribe | unsubscribe | publish | notify => exact hfits.congr (sameTimers_of_isCall rfl hs)
  | askRegistration =>
    cases hs
    exact hfits.congr ⟨rfl, rfl, rfl, rfl⟩
  | heartbeat =>
    cases hs
    obtain ⟨id, hmem⟩ := Zloop.runs_eq_true.mp hen
    exact hfits.heartbeat (hfits.registered_of_mem hmem)
  | ping timerId =>
    cases hs
    obtain ⟨timer, hmem, htimer⟩ := List.any_eq_true.mp hen
    exact hfits.ping (of_decide_eq_true htimer ▸ hmem)
  | message msg =>
    have h0 : Fits { c with timeout := 0 } := hfits.congr ⟨rfl, rfl, rfl, rfl⟩
    rw [clientStep] at hs
    cases hcmd : dealerCmd msg with
    | none =>
      rw [sOnClientMsg_of_dealerCmd_none hcmd hs]
      exact h0
    | some p =>
      rw [sOnClientMsg_of_dealerCmd hcmd] at hs
      refine h0.cmd (fun hreg => hunreg ?_) (onClientCmd_obeys hs)
      rw [ClientEvent.registers, hcmd]
      exact hreg

end DdClient

end DoubleDecker
