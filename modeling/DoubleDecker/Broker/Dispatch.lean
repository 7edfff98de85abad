import Mathlib.Algebra.GroupWithZero.Nat
import DoubleDecker.Broker.Handlers

/-!
# Broker/Dispatch — one step of a broker

The `s_on_*` callbacks take a message off a socket and call the handler of its command; the timers
run without a message.  An `Event` is one call from the event loop, `step` what it does, and `Run`
the sequences of events a broker can go through from its start.
-/

namespace DoubleDecker

open Trie

variable {H : Type} [DecidableEq H] (env : Env H)

/-! ## Publications from other brokers -/

omit [DecidableEq H] in
/-- The delivery of a publication that another broker sent: the local clients get what stands
between the first dot of the topic and the first slash after it.  A topic without that slash faults
after the messages were sent. -/
def pubRemotely (self : DdBroker H) (pubtopic name : CStr) (msg : List Frame) : Outcome H :=
  match nnTrieTree self.topicsTrie pubtopic.bytes with
  | none => .fault []
  | some none => .done self []
  | some (some socks) =>
    match pubtopic.after dot with
    | none => .fault []
    | some topic =>
      let sends := pubLocally (some socks) name (topic.before slash) msg
      if slash ∈ topic.bytes then .done self sends else .fault sends

/-- `zframe_eq`: a frame that is not there equals none. -/
def zframeEq : Option Frame → Option Frame → Bool
  | some f, some g => f = g
  | _, _ => false

omit [DecidableEq H] in
/-- `s_on_subN_msg`. -/
def sOnSubNMsg (self : DdBroker H) (msg : List Frame) : Outcome H :=
  match zmsgPopstr msg with
  | (pubtopic, msg) =>
    match zmsgPopstr msg with
    | (name, msg) =>
      match zmsgPop msg with
      | (pathv, msg) =>
        if zframeEq pathv self.brokerId then .done self []
        else
          match pubtopic, name with
          | some pubtopic, some name =>
            (pubRemotely self pubtopic name msg).andThen fun self =>
              .done self [.pubS (pubtopic.bytes :: name.bytes :: [] :: msg)]
          | _, _ => .fault []

omit [DecidableEq H] in
/-- `s_on_subS_msg`. -/
def sOnSubSMsg (self : DdBroker H) (msg : List Frame) : Outcome H :=
  match zmsgPopstr msg with
  | (pubtopic, msg) =>
    match zmsgPopstr msg with
    | (name, msg) =>
      match zmsgPop msg with
      | (pathv, msg) =>
        match pubtopic, name with
        | some pubtopic, some name =>
          (pubRemotely self pubtopic name msg).andThen fun self =>
            match self.connectedN, self.brokerId with
            | true, none => .fault []
            | connectedN, brokerId =>
              let north : List Send := if connectedN then
                [.pubN (pubtopic.bytes :: name.bytes :: brokerId.getD [] :: msg)] else []
              match pathv with
              | none => .fault north
              | some pathv =>
                .done self (north ++ [.pubS (pubtopic.bytes :: name.bytes :: pathv :: msg)])
        | _, _ => .fault []

omit [DecidableEq H] in
/-- `s_on_pubN_msg`: a subscription from the north goes on to the south. -/
def sOnPubNMsg (self : DdBroker H) (msg : List Frame) : Outcome H :=
  match zmsgPop msg with
  | (none, _) => .fault []
  | (some topicFrame, _) =>
    if topicFrame = [] then .fault [] else .done self [.subS [topicFrame]]

omit [DecidableEq H] in
/-- `s_on_pubS_msg`: a subscription from the south goes on both ways. -/
def sOnPubSMsg (self : DdBroker H) (msg : List Frame) : Outcome H :=
  match zmsgPop msg with
  | (none, _) => .fault []
  | (some topicFrame, _) =>
    if topicFrame = [] then .fault []
    else .done self ([.subS [topicFrame]] ++ if self.connectedN then [.subN [topicFrame]] else [])

/-! ## The router and the dealer socket -/

/-- The handler of a command received by the router, with the frames after the command. -/
def onRouterCmd (self : DdBroker H) (source : Frame) : Cmd → List Frame → Outcome H
  | .send, cookie :: msg => sCbSend env self source cookie msg
  | .forward, cookie :: msg => sCbForwardRsock env self source cookie msg
  | .ping, cookie :: _ => sCbPing env self source cookie
  | .sub, cookie :: msg => sCbSub env self source cookie msg
  | .unsub, cookie :: msg => sCbUnsub env self source cookie msg
  | .pub, cookie :: msg => sCbPub env self source cookie msg
  | .addlcl, msg => sCbAddlcl env self source msg
  | .adddcl, cookie :: msg => sCbAdddcl env self source cookie msg
  | .addbr, msg => sCbAddbr env self source msg
  | .unreg, cookie :: _ => sCbUnregCli env self source cookie
  | .unregdcli, cookie :: msg => sCbUnregDistCli env self source cookie msg
  | .challok, msg => sCbChallok env self source msg
  | _, _ => .done self []

/-- `s_on_router_msg`. -/
def sOnRouterMsg (self : DdBroker H) (msg : List Frame) : Outcome H :=
  match msg with
  | source :: proto :: cmdFrame :: msg =>
    match readU32 proto with
    | none => .fault []
    | some pver =>
      if pver ≠ ddVersion then
        .done self [.rsock source [proto.take 4, Cmd.error.frame, le32 ddErrorVersion,
          CStr.ascii "Different versions in use"]]
      else
        match readU32 cmdFrame with
        | none => .fault []
        | some code =>
          match Cmd.ofCode code with
          | none => .done self []
          | some cmd => onRouterCmd env self source cmd msg
  | _ => .done self []

/-- The handler of a command received by the dealer, with the frames after the command. -/
def onDealerCmd (self : DdBroker H) : Cmd → List Frame → Outcome H
  | .regok, msg => sCbRegok self msg
  | .forward, msg => sCbForwardDsock env self msg
  | .chall, msg => sCbChall env self msg
  | .error, msg => sCbHighError env self msg
  | _, _ => .done self []

/-- `s_on_dealer_msg`. -/
def sOnDealerMsg (self : DdBroker H) (msg : List Frame) : Outcome H :=
  let self := { self with timeout := 0 }
  match msg with
  | proto :: cmdFrame :: msg =>
    match readU32 proto with
    | none => .fault []
    | some pver =>
      if pver ≠ ddVersion then .done self []
      else
        match readU32 cmdFrame with
        | none => .fault []
        | some code =>
          match Cmd.ofCode code with
          | none => .done self []
          | some cmd => onDealerCmd env self cmd msg
  | _ => .done self []

/-! ## Timers -/

omit [DecidableEq H] in
/-- `s_register`. -/
def sRegister (self : DdBroker H) : Outcome H :=
  if self.state = .registered then .done self []
  else .done self [.dsock (ddMsg .addbr [self.keys.hash.bytes])]

omit [DecidableEq H] in
/-- `s_heartbeat`: a broker that gives up ends the heartbeat that was started last. -/
def sHeartbeat (self : DdBroker H) : Outcome H :=
  let self := { self with timeout := self.timeout + 1 }
  let loop := self.loop.timerEnd self.heartbeatLoop
  let self := if 3 < self.timeout then
    { self with state := .root, loop := loop.timer .sRegister, regLoop := loop.nextTimerId }
    else self
  .done self [.dsock (ddMsg .ping [self.keys.cookie.1])]

/-- The loop of `s_check_cli_timeout`. -/
def checkClients : List LocalClient → DdBroker H → Outcome H
  | [], self => .done self []
  | np :: rest, self =>
    if self.cliTimeout np < 3 then
      checkClients rest { self with
        cliTimeout := fun c => if c = np then self.cliTimeout np + 1 else self.cliTimeout c }
    else (sCbUnregCli env self np.sockid np.cookie.1).andThen (checkClients rest)

/-- `s_check_cli_timeout`. -/
def sCheckCliTimeout (self : DdBroker H) : Outcome H :=
  checkClients env self.lclCliHt.nodes self

omit [DecidableEq H] in
/-- `delete_dist_clients`. -/
def deleteDistClients (self : DdBroker H) (br : LocalBroker) : Outcome H :=
  .done { self with distCliHt := self.distCliHt.filter fun e => e.2.broker ≠ br.sockid }
    ((self.distCliHt.nodes.filter fun mp => mp.broker = br.sockid).flatMap fun mp =>
      delCliUp self mp.name)

omit [DecidableEq H] in
/-- The loop of `s_check_br_timeout`. -/
def checkBrokers : List LocalBroker → DdBroker H → Outcome H
  | [], self => .done self []
  | np :: rest, self =>
    if self.brTimeout np < 3 then
      checkBrokers rest { self with
        brTimeout := fun b => if b = np then self.brTimeout np + 1 else self.brTimeout b }
    else (deleteDistClients self np).andThen fun self =>
      checkBrokers rest { self with lclBrHt := self.lclBrHt.filter fun e => e.2 ≠ np }

omit [DecidableEq H] in
/-- `s_check_br_timeout`. -/
def sCheckBrTimeout (self : DdBroker H) : Outcome H :=
  checkBrokers self.lclBrHt.nodes self

/-! ## Runs of one broker -/

/-- One call from the event loop. -/
inductive Event where
  | router (msg : List Frame)
  | dealer (msg : List Frame)
  | subN (msg : List Frame)
  | subS (msg : List Frame)
  | pubN (msg : List Frame)
  | pubS (msg : List Frame)
  | register
  | heartbeat
  | checkCliTimeout
  | checkBrTimeout
  deriving DecidableEq

/-- What an event does. -/
def step (self : DdBroker H) : Event → Outcome H
  | .router msg => sOnRouterMsg env self msg
  | .dealer msg => sOnDealerMsg env self msg
  | .subN msg => sOnSubNMsg self msg
  | .subS msg => sOnSubSMsg self msg
  | .pubN msg => sOnPubNMsg self msg
  | .pubS msg => sOnPubSMsg self msg
  | .register => sRegister self
  | .heartbeat => sHeartbeat self
  | .checkCliTimeout => sCheckCliTimeout env self
  | .checkBrTimeout => sCheckBrTimeout self

/-- Whether the event can come: a timer that runs, a socket that is open. -/
def Event.enabled {H : Type} (self : DdBroker H) : Event → Bool
  | .register => self.loop.runs .sRegister
  | .heartbeat => self.loop.runs .sHeartbeat
  | .subN _ | .pubN _ => self.connectedN
  | .dealer _ => self.dsock
  | _ => true

/-- How a broker is set up.  `dealer` says whether it was given a higher broker; the scope is the
three numbers `dd_broker_set_scope` accepts, and prints without leaving its buffer. -/
structure Config where
  keys : DdBrokerKeys
  nonce : Frame
  dealer : Bool
  pubSEndpoint : CStr
  subSEndpoint : CStr
  scope : List CStr
  scope_digits : ∀ t ∈ scope, t.bytes ≠ [] ∧ ∀ c ∈ t.bytes, 48 ≤ c ∧ c ≤ 57
  scope_length : scope.length = 3
  scope_fits : 1 + (scope.dropLast.map fun t => t.length + 1).sum < 256

/-- The broker scope `dd_broker_set_scope` prints; the last number may be cut off. -/
def Config.brokerScope (cfg : Config) : CStr :=
  (cfg.scope.foldl (fun s t => s ++ t ++ slashStr) slashStr).truncate 255

/-- The broker at the start of its event loop; no timer has the id 0, for the -1 of
`dd_broker_new`. -/
def ddBrokerNew (H : Type) (cfg : Config) : DdBroker H :=
  { state := if cfg.dealer then .unreg else .root
    timeout := 0
    loop := if cfg.dealer then Zloop.empty.timer .sRegister else .empty
    regLoop := if cfg.dealer then (Zloop.empty : Zloop BrokerTimer).nextTimerId else 0
    heartbeatLoop := 0
    dsock := cfg.dealer
    keys := cfg.keys
    nonce := cfg.nonce
    topicsTrie := none
    brokerId := some (CStr.ascii "root")
    scope := cfg.scope
    brokerScope := cfg.brokerScope
    pubSEndpoint := cfg.pubSEndpoint
    subSEndpoint := cfg.subSEndpoint
    connectedN := false
    lclCliHt := []
    revLclCliHt := []
    cliTimeout := fun _ => 0
    distCliHt := []
    lclBrHt := []
    brTimeout := fun _ => 0
    subscribeHt := [] }

/-- **The runs of a broker** — the events so far, the last one first, and the state they led to. -/
inductive Run (cfg : Config) : List Event → DdBroker H → Prop
  | init : Run cfg [] (ddBrokerNew H cfg)
  | step {es : List Event} {self self' : DdBroker H} {e : Event} {sends : List Send} :
      Run cfg es self → e.enabled self → step env self e = .done self' sends →
      Run cfg (e :: es) self'

/-- The state a list of events leads to, the last event first as in a `Run`. -/
def runEvents (self : DdBroker H) : List Event → Option (DdBroker H)
  | [] => some self
  | e :: es => (runEvents self es).bind fun self =>
    if e.enabled self then
      match step env self e with
      | .done self _ => some self
      | .fault _ => none
    else none

/-- The list of events meets a condition at every step. -/
def meets (cond : DdBroker H → Event → Bool) (self : DdBroker H) : List Event → Bool
  | [] => true
  | e :: es => meets cond self es && (runEvents env self es).all fun self => cond self e

/-- The runs computed are runs. -/
theorem Run.of_runEvents {env : Env H} {cfg : Config} {es : List Event} {self : DdBroker H}
    (h : runEvents env (ddBrokerNew H cfg) es = some self) : Run env cfg es self := by
  induction es generalizing self with
  | nil =>
    cases h
    exact .init
  | cons e es ih =>
    obtain ⟨self₁, h₁, h⟩ := Option.bind_eq_some_iff.mp h
    split at h
    · next hen =>
      split at h
      · next self₂ sends hs =>
        cases h
        exact .step (ih h₁) hen hs
      · cases h
    · cases h

/-- A run is computed. -/
theorem Run.runEvents {env : Env H} {cfg : Config} {es : List Event} {self : DdBroker H}
    (h : Run env cfg es self) : DoubleDecker.runEvents env (ddBrokerNew H cfg) es = some self := by
  induction h with
  | init => rfl
  | step _ hen hs ih => rw [DoubleDecker.runEvents, ih, Option.bind_some, if_pos hen, hs]

/-- **The runs whose steps all meet a condition** on the state before the step and the event. -/
inductive RunIf (cfg : Config) (cond : DdBroker H → Event → Bool) :
    List Event → DdBroker H → Prop
  | init : RunIf cfg cond [] (ddBrokerNew H cfg)
  | step {es : List Event} {self self' : DdBroker H} {e : Event} {sends : List Send} :
      RunIf cfg cond es self → e.enabled self → cond self e →
      step env self e = .done self' sends → RunIf cfg cond (e :: es) self'

/-- The runs computed are runs with the condition that was checked. -/
theorem RunIf.of_runEvents {env : Env H} {cfg : Config} {cond : DdBroker H → Event → Bool}
    {es : List Event} {self : DdBroker H} (hmeets : meets env cond (ddBrokerNew H cfg) es)
    (h : runEvents env (ddBrokerNew H cfg) es = some self) : RunIf env cfg cond es self := by
  induction es generalizing self with
  | nil =>
    cases h
    exact .init
  | cons e es ih =>
    obtain ⟨self₁, h₁, h⟩ := Option.bind_eq_some_iff.mp h
    rw [meets, h₁, Bool.and_eq_true] at hmeets
    split at h
    · next hen =>
      split at h
      · next self₂ sends hs =>
        cases h
        exact .step (ih hmeets.1 h₁) hen hmeets.2 hs
      · cases h
    · cases h

theorem RunIf.run {env : Env H} {cfg : Config} {cond : DdBroker H → Event → Bool} {es : List Event}
    {self : DdBroker H} (h : RunIf env cfg cond es self) : Run env cfg es self := by
  induction h with
  | init => exact .init
  | step _ hen _ hs ih => exact .step ih hen hs

/-- The states a broker can reach. -/
def Reachable (cfg : Config) (self : DdBroker H) : Prop := ∃ es, Run env cfg es self

/-- **An invariant holds in every reachable state.** -/
theorem Reachable.induction {env : Env H} {cfg : Config} {P : DdBroker H → Prop}
    (init : P (ddBrokerNew H cfg))
    (hstep : ∀ self self' e sends, P self → step env self e = .done self' sends → P self')
    {self : DdBroker H} (h : Reachable env cfg self) : P self := by
  obtain ⟨es, h⟩ := h
  induction h with
  | init => exact init
  | step _ _ hs ih => exact hstep _ _ _ _ ih hs

end DoubleDecker
