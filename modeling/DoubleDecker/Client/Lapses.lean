import DoubleDecker.Client.Timers
import DoubleDecker.Library.Watchdog

/-!
# Client/Lapses — when a client loses its broker

The client counts its heartbeats since anything came from the broker, another `Watchdog`
(`clientWatch`): the registration ends at the fourth and at no other step.  The application is told
with `on_reg` and `on_discon`, and the last of these calls always says whether the client is
registered (`client_lapses`).  A heartbeat that a second `REGOK` left running goes on after the
registration ended, and calls `on_discon` again.
-/

namespace DoubleDecker

variable {H : Type} {env : Env H} {c : DdClient} {e : ClientEvent} {h : Handled}

/-! ## One step -/

/-- The event is a message of the broker. -/
def ClientEvent.isMessage : ClientEvent → Bool
  | .message _ => true
  | _ => false

/-- What an event is for the counter of a client. -/
def clientBeat (e : ClientEvent) : Beat :=
  if e = .heartbeat then .tick else if e.isMessage then .renew else .rest

/-- The calls of the application that say whether the client is registered. -/
def Call.isLife : Call → Bool
  | .onReg | .onDiscon => true
  | _ => false

/-- A heartbeat at which a client gives up. -/
def lapsing (c : DdClient) (e : ClientEvent) : Bool := decide (e = .heartbeat ∧ 3 ≤ c.timeout)

/-- **What a step does to the registration**, its counter and what the application is told. -/
structure Lives (c : DdClient) (e : ClientEvent) (h : Handled) : Prop where
  state : h.self.state =
    if lapsing c e then .unreg else if e.registers then .registered else c.state
  timeout : h.self.timeout = (clientBeat e).after c.timeout
  calls : h.calls.filter Call.isLife =
    if lapsing c e then [.onDiscon] else if e.registers then [.onReg] else []

theorem onClientCmd_life {cmd : Cmd} {body : List Frame}
    (hs : onClientCmd env c cmd body = some h) :
    h.self.timeout = c.timeout ∧
      h.calls.filter Call.isLife = if registers cmd body then [.onReg] else [] := by
  constructor
  · cases onClientCmd_clientHandles hs with
    | quiet hcall hregisters hpong hself hsends => rw [hself]
    | chall frames hself hsends => rw [hself]
    | _ => rfl
  · cases cmd with
    | data =>
      simp only [onClientCmd, cbData] at hs
      split at hs
      · obtain ⟨o, -, rfl⟩ := Option.map_eq_some_iff.mp hs
        cases o <;> rfl
      · cases hs
    | pub =>
      simp only [onClientCmd, cbPub] at hs
      split at hs
      · obtain ⟨o, -, rfl⟩ := Option.map_eq_some_iff.mp hs
        cases o <;> rfl
      · cases hs
    | chall =>
      simp only [onClientCmd, cbChall] at hs
      split at hs
      · cases hs
      · obtain ⟨o, -, rfl⟩ := Option.map_eq_some_iff.mp hs
        cases o <;> rfl
    | error =>
      simp only [onClientCmd, cbError] at hs
      split at hs
      · cases hs
        rfl
      · cases hs
      · obtain ⟨_, -, rfl⟩ := Option.map_eq_some_iff.mp hs
        rfl
    | regok =>
      simp only [onClientCmd, cbRegok] at hs
      split at hs
      · cases hs
        rfl
      · obtain ⟨cookie, hcookie, rfl⟩ := Option.map_eq_some_iff.mp hs
        simp [registers, hcookie, Call.isLife]
    | subok =>
      simp only [onClientCmd, cbSubok] at hs
      split at hs
      · cases hs
        rfl
      · cases hs
    | _ =>
      cases hs
      rfl

theorem clientStep_lives (hs : clientStep env c e = some h) : Lives c e h := by
  cases e with
  | subscribe topic scope =>
    cases hs
    exact ⟨rfl, rfl, rfl⟩
  | unsubscribe topic scope =>
    cases hs
    exact ⟨rfl, rfl, rfl⟩
  | publish topic message =>
    obtain ⟨-, rfl⟩ | ⟨key, -, -, rfl⟩ := clientStep_publish hs <;> exact ⟨rfl, rfl, rfl⟩
  | notify target message =>
    obtain ⟨-, rfl⟩ := clientStep_notify hs
    exact ⟨rfl, rfl, rfl⟩
  | message msg =>
    rw [clientStep] at hs
    cases hcmd : dealerCmd msg with
    | none =>
      rw [sOnClientMsg_of_dealerCmd_none hcmd hs]
      constructor <;> simp [lapsing, ClientEvent.registers, hcmd, clientBeat,
        ClientEvent.isMessage, Beat.after]
    | some p =>
      obtain ⟨cmd, body⟩ := p
      rw [sOnClientMsg_of_dealerCmd hcmd] at hs
      have hobeys := onClientCmd_obeys hs
      obtain ⟨htimeout, hcalls⟩ := onClientCmd_life hs
      have hreg : (ClientEvent.message msg).registers = registers cmd body := by
        rw [ClientEvent.registers, hcmd, Option.any_some]
      exact ⟨by simpa [lapsing, hreg] using hobeys.state, htimeout,
        by simpa [lapsing, hreg] using hcalls⟩
  | heartbeat =>
    cases hs
    unfold sClientHeartbeat
    by_cases htimeout : 3 < c.timeout + 1
    · simp only [htimeout, if_true]
      have hge : 3 ≤ c.timeout := Nat.lt_succ_iff.mp htimeout
      constructor <;> simp [lapsing, hge, clientBeat, Beat.after, Call.isLife]
    · simp only [htimeout, if_false]
      have hlt : ¬ 3 ≤ c.timeout := fun hge => htimeout (Nat.lt_succ_of_le hge)
      constructor <;> simp [lapsing, hlt, clientBeat, Beat.after, ClientEvent.registers]
  | askRegistration =>
    cases hs
    exact ⟨rfl, rfl, rfl⟩
  | ping =>
    cases hs
    exact ⟨rfl, rfl, rfl⟩

/-- **The counter of a client** is a watchdog of its registration. -/
def clientWatch (env : Env H) : Watchdog DdClient ClientEvent Unit where
  step c e c' := ∃ h, clientStep env c e = some h ∧ h.self = c'
  present c _ := c.state = .registered
  age c _ := c.timeout
  beat _ e _ := clientBeat e
  limit := 3
  comes := by
    rintro c e _ - ⟨h, hs, rfl⟩ hnew hold
    rw [(clientStep_lives hs).state] at hnew
    split_ifs at hnew with hlapse hreg
    · cases e with
      | message msg => rfl
      | _ => cases hreg
    · exact absurd hnew hold
  goes := by
    rintro c e _ - ⟨h, hs, rfl⟩ hold
    have htick : clientBeat e = .tick ↔ e = .heartbeat := by
      rw [clientBeat]
      split_ifs with hheart <;> simp [hheart]
    rw [htick, (clientStep_lives hs).state]
    by_cases hlapse : lapsing c e = true
    · rw [if_pos hlapse]
      exact iff_of_true (by simp) (of_decide_eq_true hlapse)
    · rw [if_neg hlapse]
      refine iff_of_false (not_not.mpr ?_) fun hgo => hlapse (decide_eq_true hgo)
      split
      · rfl
      · exact hold
  age_after := fun ⟨_, hs, heq⟩ _ => heq ▸ (clientStep_lives hs).timeout

/-! ## Runs -/

/-- The heartbeats since the broker was last heard. -/
def clientTicks (es : List ClientEvent) : Nat := ticks (es.map clientBeat)

variable (env) in
/-- What the application is told about the registration, the last call first. -/
def lifeCalls (c₀ : DdClient) : List ClientEvent → List Call
  | [] => []
  | e :: es =>
    match (clientRun env c₀ es).bind fun c => clientStep env c e with
    | none => []
    | some h => h.calls.filter Call.isLife ++ lifeCalls c₀ es

variable (env) in
/-- Whether every `REGOK` that was taken came to a client in `UNREG`. -/
def registersOnce (c₀ : DdClient) : List ClientEvent → Bool
  | [] => true
  | e :: es => registersOnce c₀ es &&
    (clientRun env c₀ es).all fun c => !e.registers || c.state = .unreg

/-- **What a run keeps**: it is a trace of the watchdog, the counter has the heartbeats since the
broker was last heard, this is what the application was told last, and the timers fit the state if
the client was registered once at a time. -/
structure LifeOk (env : Env H) (c₀ : DdClient) (es : List ClientEvent) (c : DdClient) : Prop where
  trace : ∃ l, (clientWatch env).Trace l c ∧ l.map Prod.snd = es
  timeout : c.timeout = clientTicks es
  told : c.state = .registered ↔ (lifeCalls env c₀ es).head? = some .onReg
  fits : registersOnce env c₀ es → c.Fits

theorem clientRun_lifeOk {clientName : CStr} {keys : DdKeys} {cookie : Cookie} {nonce : Frame}
    {heartbeatLoop : Nat} {es : List ClientEvent}
    (hrun : clientRun env (ddNew clientName keys cookie nonce heartbeatLoop) es = some c) :
    LifeOk env (ddNew clientName keys cookie nonce heartbeatLoop) es c := by
  induction es generalizing c with
  | nil =>
    cases hrun
    exact ⟨⟨[], .init fun _ hreg => (by cases hreg), rfl⟩, rfl, by simp [ddNew, lifeCalls],
      fun _ => DdClient.fits_ddNew _ _ _ _ _⟩
  | cons e es ih =>
    obtain ⟨c₁, hprev, hstep⟩ := Option.bind_eq_some_iff.mp hrun
    split at hstep
    · next hen =>
      obtain ⟨h, hs, rfl⟩ := Option.map_eq_some_iff.mp hstep
      obtain ⟨⟨l, htrace, hl⟩, htimeout, htold, hfits⟩ := ih hprev
      have hlives := clientStep_lives hs
      refine ⟨⟨(c₁, e) :: l, .snoc htrace ⟨h, hs, rfl⟩, by rw [List.map_cons, hl]⟩, ?_, ?_,
        fun honce => ?_⟩
      · rw [hlives.timeout, htimeout]
        rfl
      · rw [lifeCalls, hprev, Option.bind_some, hs, hlives.state]
        simp only [hlives.calls]
        split_ifs
        · simp
        · simp
        · exact htold
      · rw [registersOnce, hprev, Bool.and_eq_true, Option.all_some] at honce
        exact (hfits honce.1).step hen (fun hreg => by simpa [hreg] using honce.2) hs
    · cases hstep

/-- **A client gives its registration up exactly at the fourth heartbeat** since anything came from
the broker.  The application is told at every heartbeat from the fourth on, and only there; what it
was told last is whether the client is registered.  If the client was registered once at a time, it
is told exactly when a registration ends. -/
theorem client_lapses {clientName : CStr} {keys : DdKeys} {cookie : Cookie} {nonce : Frame}
    {heartbeatLoop : Nat} {es : List ClientEvent}
    (hrun : clientRun env (ddNew clientName keys cookie nonce heartbeatLoop) es = some c)
    (hen : e.enabled c) (hs : clientStep env c e = some h) :
    (c.state = .registered →
        (h.self.state ≠ .registered ↔ e = .heartbeat ∧ clientTicks es = 3)) ∧
      (.onDiscon ∈ h.calls ↔ e = .heartbeat ∧ 3 ≤ clientTicks es) ∧
      (c.state = .registered ↔ (lifeCalls env
        (ddNew clientName keys cookie nonce heartbeatLoop) es).head? = some .onReg) ∧
      (registersOnce env (ddNew clientName keys cookie nonce heartbeatLoop) es →
        (.onDiscon ∈ h.calls ↔ c.state = .registered ∧ h.self.state ≠ .registered)) := by
  obtain ⟨⟨l, htrace, hl⟩, htimeout, htold, hfits⟩ := clientRun_lifeOk hrun
  have hlives := clientStep_lives hs
  have hcalls : .onDiscon ∈ h.calls ↔ lapsing c e = true := by
    have hmem : .onDiscon ∈ h.calls ↔ .onDiscon ∈ h.calls.filter Call.isLife := by
      simp [Call.isLife]
    rw [hmem, hlives.calls]
    by_cases hlapse : lapsing c e = true
    · simp [hlapse]
    · by_cases hreg : e.registers = true <;> simp [hlapse, hreg]
  have hlapsing : lapsing c e = true ↔ e = .heartbeat ∧ 3 ≤ clientTicks es := by
    rw [lapsing, decide_eq_true_eq, htimeout]
  have hends : c.state = .registered → (h.self.state ≠ .registered ↔ lapsing c e = true) := by
    intro hold
    rw [hlives.state]
    by_cases hlapse : lapsing c e = true
    · simp [hlapse]
    · rw [if_neg hlapse]
      refine iff_of_false (not_not.mpr ?_) hlapse
      split
      · rfl
      · exact hold
  refine ⟨fun hold => (hends hold).trans (hlapsing.trans ?_), hcalls.trans hlapsing, htold,
    fun honce => hcalls.trans ⟨fun hlapse => ?_, fun hend => (hends hend.1).mp hend.2⟩⟩
  · -- a registered client has not counted further
    have hle : c.timeout ≤ 3 := (htrace.age_eq (i := ()) hold).2
    exact and_congr_right fun _ => by omega
  · -- only the heartbeat of the registration runs
    have hheart := (hlapsing.mp hlapse).1
    subst hheart
    obtain ⟨id, hmem⟩ := Zloop.runs_eq_true.mp hen
    have hold := (hfits honce).registered_of_mem hmem
    exact ⟨hold, (hends hold).mpr hlapse⟩

/-- A client is registered and hears nothing more. -/
def deafClient : List ClientEvent :=
  [.heartbeat, .heartbeat, .heartbeat, .message (ddMsg .regok [(cookieOf 65).1])]

/-- The fourth heartbeat. -/
theorem client_lapses_deafClient : ∃ c h, clientStep plainEnv c .heartbeat = some h ∧
    clientTicks deafClient = 3 ∧
    (c.state = .registered →
        (h.self.state ≠ .registered ↔ ClientEvent.heartbeat = .heartbeat ∧
          clientTicks deafClient = 3)) ∧
      (.onDiscon ∈ h.calls ↔ ClientEvent.heartbeat = .heartbeat ∧ 3 ≤ clientTicks deafClient) ∧
      (c.state = .registered ↔
        (lifeCalls plainEnv unregistered deafClient).head? = some .onReg) ∧
      (registersOnce plainEnv unregistered deafClient →
        (.onDiscon ∈ h.calls ↔ c.state = .registered ∧ h.self.state ≠ .registered)) := by
  obtain ⟨c, hc, hloop⟩ := Option.map_eq_some_iff.mp (show (clientRun plainEnv unregistered
    deafClient).map (fun c => c.loop.runs .sHeartbeat) = some true by decide)
  exact ⟨c, _, rfl, by decide, client_lapses hc hloop rfl⟩

end DoubleDecker
