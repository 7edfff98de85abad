import DoubleDecker.Client.State

/-!
# Client/Handlers — the commands of a client

The `cb_*` functions of `client.c` and the functions an application calls.  A handler that uses a
frame or a string that is not there, or reads past a frame, has no outcome.  Log lines are left out.
-/

namespace DoubleDecker

variable {H : Type} (env : Env H)

/-! ## The list of subscriptions -/

/-- `sublist_add`. -/
def sublistAdd (l : Zlistx Ddtopic) (topic scope : CStr) (active : Bool) : Zlistx Ddtopic :=
  let same := fun item : Ddtopic => decide (item.topic = topic) && decide (item.scope = scope)
  let found := l.rest.any same
  let l := l.pass fun item => if same item then { item with active := active } else item
  if found then l else l.addStart { topic := topic, scope := scope, active := active }

/-- `sublist_delete`: the comparator of the list looks at the topic only. -/
def sublistDelete (l : Zlistx Ddtopic) (topic : CStr) : Zlistx Ddtopic :=
  match l.find fun item => decide (item.topic = topic) with
  | (none, l) => l
  | (some handle, l) => l.delete handle

/-- `sublist_activate`. -/
def sublistActivate (l : Zlistx Ddtopic) (topic scope : CStr) : Zlistx Ddtopic :=
  l.pass fun item =>
    if item.topic = topic ∧ item.scope = scope then { item with active := true } else item

/-- `sublist_deactivate_all`. -/
def sublistDeactivateAll (l : Zlistx Ddtopic) : Zlistx Ddtopic :=
  l.pass fun item => { item with active := false }

/-- `sublist_resubscribe`: the list after the loop, and the `SUB` messages. -/
def sublistResubscribe (l : Zlistx Ddtopic) (cookie : Cookie) :
    Zlistx Ddtopic × List (List Frame) :=
  (l.pass id, l.rest.map fun item => ddMsg .sub [cookie.1, item.topic.bytes, item.scope.bytes])

/-! ## What the application calls -/

/-- The scope string for a scope: five names stand for one. -/
def scopestr (scope : CStr) : CStr :=
  if scope = ⟨CStr.ascii "all", by decide⟩ then ⟨CStr.ascii "/", by decide⟩
  else if scope = ⟨CStr.ascii "region", by decide⟩ then ⟨CStr.ascii "/*/", by decide⟩
  else if scope = ⟨CStr.ascii "cluster", by decide⟩ then ⟨CStr.ascii "/*/*/", by decide⟩
  else if scope = ⟨CStr.ascii "node", by decide⟩ then ⟨CStr.ascii "/*/*/*/", by decide⟩
  else scope

/-- `dd_subscribe`. -/
def ddSubscribe (self : DdClient) (topic scope : CStr) : Handled :=
  let scopestr := scopestr scope
  { self := { self with sublist := sublistAdd self.sublist topic scopestr false }
    sends := if self.state = .registered then
      [ddMsg .sub [self.cookie.1, topic.bytes, scopestr.bytes]] else [] }

/-- `dd_unsubscribe`. -/
def ddUnsubscribe (self : DdClient) (topic scope : CStr) : Handled :=
  { self := { self with sublist := sublistDelete self.sublist topic }
    sends := if self.state = .registered then
      [ddMsg .unsub [self.cookie.1, topic.bytes, (scopestr scope).bytes]] else [] }

/-- The key `dd_notify` encrypts for a target with. -/
def notifyKey (keys : DdKeys) (target : CStr) : Frame :=
  let dstpublic := target.startsWith publicDot
  match if dot ∈ target.bytes ∧ keys.ispublic then
      keys.clientkeys.lookup (target.before dot) else none with
  | some precalck => if dstpublic then keys.pubboxk else precalck
  | none => if dstpublic then keys.pubboxk else keys.custboxk

/-- The key `dd_publish` encrypts for a topic with.  A public client does not publish to a tenant it
has a key for. -/
def publishKey (keys : DdKeys) (topic : CStr) : Option Frame :=
  let dstpublic := topic.startsWith publicDot
  match if dot ∈ topic.bytes ∧ keys.ispublic then
      keys.clientkeys.lookup (topic.before dot) else none with
  | some _ => none
  | none => some (if dstpublic then keys.pubboxk else keys.custboxk)

/-- `enclen` of a message: what does not fit an `int` is not allocated. -/
def fitsInt (message : Frame) : Bool := decide (message.length + nonceBytes + macBytes < 2 ^ 31)

/-- The next nonce, and the frame that carries it before the ciphertext. -/
def sealFrame (self : DdClient) (message key : Frame) : DdClient × Frame :=
  let nonce := env.nonceIncrement self.nonce
  ({ self with nonce }, nonce ++ env.boxEasyAfternm message nonce key)

/-- `dd_notify` and its return value. -/
def ddNotify (self : DdClient) (target : CStr) (message : Frame) : Option (Handled × Int) :=
  if fitsInt message then
    let (self, ciphertext) := sealFrame env self message (notifyKey self.keys target)
    some ({ self
            sends := if self.state = .registered then
              [ddMsg .send [self.cookie.1, target.bytes, ciphertext]] else [] }, 0)
  else none

/-- `dd_publish` and its return value. -/
def ddPublish (self : DdClient) (topic : CStr) (message : Frame) : Option (Handled × Int) :=
  match publishKey self.keys topic with
  | none => some ({ self }, -1)
  | some key =>
    if fitsInt message then
      let (self, ciphertext) := sealFrame env self message key
      some ({ self
              sends := if self.state = .registered then
                [ddMsg .pub [self.cookie.1, topic.bytes, [], ciphertext]] else [] }, 0)
    else none

/-! ## Messages from the broker -/

/-- The key for a source: that of the tenant named before its first dot, if the client has one, else
the public one or its own. -/
def sourceKey (keys : DdKeys) (source : CStr) : Frame :=
  match if dot ∈ source.bytes then keys.clientkeys.lookup (source.before dot) else none with
  | some precalck => precalck
  | none => if source.startsWith publicDot then keys.pubboxk else keys.custboxk

/-- `cb_regok`: it starts a heartbeat also when one runs. -/
def cbRegok (self : DdClient) (msg : List Frame) : Option Handled :=
  match msg with
  | [] => some { self }
  | cookieFrame :: _ =>
    (readCookie cookieFrame).map fun cookie =>
      let (sublist, subs) := sublistResubscribe self.sublist cookie
      { self := { self with
          cookie, sublist, state := .registered
          loop := (self.loop.timer .sHeartbeat).timerEnd self.registrationLoop
          heartbeatLoop := self.loop.nextTimerId }
        sends := ddMsg .ping [cookie.1] :: subs
        calls := [.onReg] }

/-- `cb_pong`. -/
def cbPong (self : DdClient) : Option Handled :=
  some { self := { self with loop := self.loop.timer .sPing } }

/-- `cb_chall`. -/
def cbChall (self : DdClient) (msg : List Frame) : Option Handled :=
  match msg with
  | [] => none
  | encrypted :: _ =>
    (openFrame env encrypted self.keys.ddboxk).map fun
      | none => { self, lengths := [enclen encrypted, cipherLength encrypted] }
      | some decrypted =>
        { self
          sends := [ddMsg .challok [decrypted, self.keys.hash.bytes, self.clientName.bytes]]
          lengths := [enclen encrypted, cipherLength encrypted, plainLength encrypted] }

/-- `cb_data`. -/
def cbData (self : DdClient) (msg : List Frame) : Option Handled :=
  match msg with
  | source :: encrypted :: _ =>
    let source := CStr.ofBytes source
    (openFrame env encrypted (sourceKey self.keys source)).map fun decrypted =>
      { self
        calls := decrypted.toList.map fun data => .onData source data
        lengths := [plainLength encrypted, cipherLength encrypted] }
  | _ => none

/-- `cb_pub`. -/
def cbPub (self : DdClient) (msg : List Frame) : Option Handled :=
  match msg with
  | source :: topic :: encrypted :: _ =>
    let source := CStr.ofBytes source
    (openFrame env encrypted (sourceKey self.keys source)).map fun decrypted =>
      { self
        calls := decrypted.toList.map fun data => .onPub source (CStr.ofBytes topic) data
        lengths := [plainLength encrypted, cipherLength encrypted] }
  | _ => none

/-- `cb_subok`. -/
def cbSubok (self : DdClient) (msg : List Frame) : Option Handled :=
  match msg with
  | topic :: scope :: _ => some { self := { self with
      sublist := sublistActivate self.sublist (CStr.ofBytes topic) (CStr.ofBytes scope) } }
  | _ => none

/-- `cb_error`. -/
def cbError (self : DdClient) (msg : List Frame) : Option Handled :=
  match msg with
  | [] => some { self }
  | [_] => none
  | codeFrame :: message :: _ =>
    (readU32 codeFrame).map fun code => { self, calls := [.onError code (CStr.ofBytes message)] }

/-- The handler of a command, with the frames after the command. -/
def onClientCmd (self : DdClient) : Cmd → List Frame → Option Handled
  | .data, msg => cbData env self msg
  | .error, msg => cbError self msg
  | .regok, msg => cbRegok self msg
  | .pong, _ => cbPong self
  | .chall, msg => cbChall env self msg
  | .pub, msg => cbPub env self msg
  | .subok, msg => cbSubok self msg
  | _, _ => some { self }

/-- `s_on_dealer_msg` of `client.c`.  Of the codes that are not in `Cmd` it knows those of
`DD_CMD_SENDPUBLIC` to `DD_CMD_DATAPT`; any other is printed as if it were a string. -/
def sOnClientMsg (self : DdClient) (msg : List Frame) : Option Handled :=
  let self := { self with timeout := 0 }
  match msg with
  | protoFrame :: cmdFrame :: msg =>
    match readU32 protoFrame with
    | none => none
    | some version =>
      if version ≠ ddVersion then some { self }
      else
        match readU32 cmdFrame with
        | none => none
        | some code =>
          match Cmd.ofCode code with
          | none => if 18 ≤ code ∧ code ≤ 22 then some { self } else none
          | some cmd => onClientCmd env self cmd msg
  | _ => some { self }

/-! ## Timers -/

/-- `s_ping`, which runs once: the loop ends the timer. -/
def sPing (self : DdClient) (timerId : Nat) : Handled :=
  { self := { self with loop := self.loop.timerEnd timerId }
    sends := if self.state = .registered then [ddMsg .ping [self.cookie.1]] else [] }

/-- `s_heartbeat` of `client.c`: a client that gives up ends the heartbeat that was started last. -/
def sClientHeartbeat (self : DdClient) : Handled :=
  let self := { self with timeout := self.timeout + 1 }
  if 3 < self.timeout then
    { self := { self with
        state := .unreg
        loop := (self.loop.timer .sAskRegistration).timerEnd self.heartbeatLoop
        registrationLoop := self.loop.nextTimerId
        sublist := sublistDeactivateAll self.sublist }
      calls := [.onDiscon] }
  else { self }

/-- `s_ask_registration`: what it sends goes through a new socket. -/
def sAskRegistration (self : DdClient) : Handled :=
  { self
    sends := if self.state = .unreg then [ddMsg .addlcl [self.keys.hash.bytes]] else [] }

/-! ## Runs of one client -/

/-- `dd_new` and the start of its thread; `cookie` and `heartbeatLoop` are not set before the first
`REGOK`, and the latter is not used before. -/
def ddNew (clientName : CStr) (keys : DdKeys) (cookie : Cookie) (nonce : Frame)
    (heartbeatLoop : Nat := 0) : DdClient where
  clientName := clientName
  timeout := 0
  state := .unreg
  loop := Zloop.empty.timer .sAskRegistration
  registrationLoop := (Zloop.empty : Zloop TimerFn).nextTimerId
  heartbeatLoop := heartbeatLoop
  cookie := cookie
  keys := keys
  sublist := .empty
  nonce := nonce

/-- A call of the application, a message of the broker or a timer. -/
inductive ClientEvent where
  | subscribe (topic scope : CStr)
  | unsubscribe (topic scope : CStr)
  | publish (topic : CStr) (message : Frame)
  | notify (target : CStr) (message : Frame)
  | message (msg : List Frame)
  | askRegistration
  | heartbeat
  | ping (timerId : Nat)
  deriving DecidableEq

/-- Whether the event can come: a timer that runs. -/
def ClientEvent.enabled (self : DdClient) : ClientEvent → Bool
  | .askRegistration => self.loop.runs .sAskRegistration
  | .heartbeat => self.loop.runs .sHeartbeat
  | .ping timerId => self.loop.timers.any fun timer => timer = (timerId, .sPing)
  | _ => true

/-- What an event does. -/
def clientStep (self : DdClient) : ClientEvent → Option Handled
  | .subscribe topic scope => some (ddSubscribe self topic scope)
  | .unsubscribe topic scope => some (ddUnsubscribe self topic scope)
  | .publish topic message => (ddPublish env self topic message).map Prod.fst
  | .notify target message => (ddNotify env self target message).map Prod.fst
  | .message msg => sOnClientMsg env self msg
  | .askRegistration => some (sAskRegistration self)
  | .heartbeat => some (sClientHeartbeat self)
  | .ping timerId => some (sPing self timerId)

/-- The state a list of events leads to, the last event first. -/
def clientRun (self : DdClient) : List ClientEvent → Option DdClient
  | [] => some self
  | e :: es => (clientRun self es).bind fun self =>
    if e.enabled self then (clientStep env self e).map Handled.self else none

variable {env} {c : DdClient} {h : Handled}

/-- **What `dd_publish` leaves**: nothing when it refuses the topic, else the next nonce. -/
theorem clientStep_publish {topic : CStr} {message : Frame}
    (hs : clientStep env c (.publish topic message) = some h) :
    publishKey c.keys topic = none ∧ h = { self := c } ∨
    ∃ key, publishKey c.keys topic = some key ∧ fitsInt message ∧
      h = { self := (sealFrame env c message key).1
            sends := if c.state = .registered then [ddMsg .pub
              [c.cookie.1, topic.bytes, [], (sealFrame env c message key).2]] else [] } := by
  obtain ⟨⟨h', n⟩, hpub, rfl⟩ := Option.map_eq_some_iff.mp hs
  unfold ddPublish at hpub
  split at hpub
  · next hkey =>
    cases hpub
    exact Or.inl ⟨hkey, rfl⟩
  · next key hkey =>
    split at hpub
    · next hfits =>
      cases hpub
      exact Or.inr ⟨key, hkey, hfits, rfl⟩
    · cases hpub

/-- **What `dd_notify` leaves.** -/
theorem clientStep_notify {target : CStr} {message : Frame}
    (hs : clientStep env c (.notify target message) = some h) :
    fitsInt message ∧
      h = { self := (sealFrame env c message (notifyKey c.keys target)).1
            sends := if c.state = .registered then [ddMsg .send [c.cookie.1, target.bytes,
              (sealFrame env c message (notifyKey c.keys target)).2]] else [] } := by
  obtain ⟨⟨h', n⟩, hnotify, rfl⟩ := Option.map_eq_some_iff.mp hs
  unfold ddNotify at hnotify
  split at hnotify
  · next hfits =>
    cases hnotify
    exact ⟨hfits, rfl⟩
  · cases hnotify

end DoubleDecker
