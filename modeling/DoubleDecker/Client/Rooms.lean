import DoubleDecker.Client.Handshake
import DoubleDecker.Client.Nonces

/-!
# Client/Rooms — a broker and any number of clients

A broker that hears from its clients only, over links that may lose messages and let one overtake
another.  A room keeps count of the calls of `dd_notify` and `on_data`; the lemmas say what one step
of a client and of the broker has to do with them.
-/

namespace DoubleDecker

variable {ι H : Type}

/-! ## A broker and its clients -/

/-- A call of `dd_notify`, and the frame it sealed. -/
structure Notified (ι : Type) where
  client : ι
  target : CStr
  message : Frame
  encrypted : Frame

/-- A call of `on_data`, and the message it was made for. -/
structure Delivered (ι : Type) where
  client : ι
  msg : List Frame
  source : CStr
  data : Frame

/-- A broker and its clients.  `sockid` is what the broker calls the open socket of a client, and
`owner` knows whose all the sockets so far are; `up` and `down` have the messages on their way, each
with the socket id it was sent under or is for, `notified` and `delivered` the calls so far. -/
structure Room (ι H : Type) where
  clients : ι → DdClient
  sockid : ι → Option Frame
  owner : Frame → Option ι
  broker : DdBroker H
  up : List (Frame × List Frame)
  down : List (Frame × List Frame)
  notified : List (Notified ι)
  delivered : List (Delivered ι)

/-- What happens next. -/
inductive RoomEvent (ι : Type) where
  /-- A call of the application, or a timer that needs no new socket. -/
  | call (i : ι) (e : ClientEvent)
  /-- The registration timer: the socket it opens gets this id. -/
  | ask (i : ι) (sockid : Frame)
  /-- A message arrives at the client whose open socket it is for. -/
  | toClient (k : Nat)
  /-- A message arrives at the broker. -/
  | toBroker (k : Nat)
  /-- A message on its way up is lost. -/
  | loseUp (k : Nat)
  /-- A message on its way down is lost. -/
  | loseDown (k : Nat)
  /-- A timer of the broker, or a publication of another broker. -/
  | broker (e : Event)

/-- The events that bring a client no message and open no socket. -/
def ClientEvent.isOwn : ClientEvent → Bool
  | .message _ | .askRegistration => false
  | _ => true

/-- The events that bring a broker no command. -/
def Event.isOwn : Event → Bool
  | .router _ | .dealer _ => false
  | _ => true

/-- The message of a router socket, with the socket id of the peer. -/
def Send.toPeer : Send → Option (Frame × List Frame)
  | .rsock dest msg => some (dest, msg)
  | _ => none

/-- What an event says about `dd_notify`. -/
def ClientEvent.notified (env : Env H) (self : DdClient) (i : ι) : ClientEvent → List (Notified ι)
  | .notify target plain =>
    [⟨i, target, plain, (sealFrame env self plain (notifyKey self.keys target)).2⟩]
  | _ => []

/-- The calls of `on_data` among those an event made. -/
def Call.delivered (i : ι) (msg : List Frame) : Call → Option (Delivered ι)
  | .onData source data => some ⟨i, msg, source, data⟩
  | _ => none

/-- What an event says about `on_data`. -/
def ClientEvent.delivered (i : ι) (calls : List Call) : ClientEvent → List (Delivered ι)
  | .message msg => calls.filterMap (Call.delivered i msg)
  | _ => []

namespace Room

/-- Clients that have not registered yet. -/
def start (client : ι → DdClient) (broker : DdBroker H) : Room ι H :=
  ⟨client, fun _ => none, fun _ => none, broker, [], [], [], []⟩

variable [DecidableEq ι] [DecidableEq H] (env : Env H) (r : Room ι H)

omit [DecidableEq H] in
/-- A client handles an event. -/
def clientActs (i : ι) (e : ClientEvent) : Option (Room ι H) :=
  (clientStep env (r.clients i) e).map fun h => { r with
    clients := Function.update r.clients i h.self
    up := r.up ++ (r.sockid i).toList.flatMap fun s => h.sends.map fun m => (s, m)
    notified := r.notified ++ e.notified env (r.clients i) i
    delivered := r.delivered ++ e.delivered i h.calls }

omit [DecidableEq ι] in
/-- The broker handles an event. -/
def brokerActs (e : Event) : Option (Room ι H) :=
  match step env r.broker e with
  | .done b sends => some { r with broker := b, down := r.down ++ sends.filterMap Send.toPeer }
  | .fault _ => none

/-- What an event does.  A message that its receiver does not survive has no outcome. -/
def act : RoomEvent ι → Option (Room ι H)
  | .call i e => if e.isOwn ∧ e.enabled (r.clients i) then r.clientActs env i e else none
  | .ask i sockid =>
    if (ClientEvent.askRegistration).enabled (r.clients i) ∧ (r.clients i).state = .unreg ∧
        r.owner sockid = none then
      { r with
        sockid := Function.update r.sockid i (some sockid)
        owner := Function.update r.owner sockid (some i) }.clientActs env i .askRegistration
    else none
  | .toClient k =>
    match r.down[k]? with
    | none => none
    | some (s, m) =>
      match r.owner s with
      | none => none
      | some i =>
        if r.sockid i = some s then
          { r with down := r.down.eraseIdx k }.clientActs env i (.message m)
        else none
  | .toBroker k =>
    match r.up[k]? with
    | none => none
    | some (s, m) => { r with up := r.up.eraseIdx k }.brokerActs env (.router (s :: m))
  | .loseUp k => some { r with up := r.up.eraseIdx k }
  | .loseDown k => some { r with down := r.down.eraseIdx k }
  | .broker e => if e.isOwn ∧ e.enabled r.broker then r.brokerActs env e else none

/-- The room after some events, the first one first. -/
def run (r : Room ι H) : List (RoomEvent ι) → Option (Room ι H)
  | [] => some r
  | e :: es => (r.act env e).bind fun r => r.run es

end Room

/-! ## What a client sends and calls -/

/-- The frame a `SEND` carries. -/
def sendFrame (m : List Frame) : Option Frame :=
  match dealerCmd m with
  | some (.send, _ :: _ :: encrypted :: _) => some encrypted
  | _ => none

/-- The frame a `DATA` carries. -/
def dataFrame (m : List Frame) : Option Frame :=
  match dealerCmd m with
  | some (.data, _ :: encrypted :: _) => some encrypted
  | _ => none

/-- The frame of the `DATA` an event is. -/
def ClientEvent.frame : ClientEvent → Option Frame
  | .message m => dataFrame m
  | _ => none

section

variable {env : Env H} {c : DdClient} {e : ClientEvent} {h : Handled}

/-- The `SEND` of a call of `dd_notify`. -/
def sentFor (env : Env H) (c : DdClient) (target : CStr) (plain : Frame) : List Frame :=
  ddMsg .send [c.cookie.1, target.bytes, (sealFrame env c plain (notifyKey c.keys target)).2]

/-- **What a client sends** — a `SEND` for a call of `dd_notify`; nothing else it sends is a
notification. -/
theorem clientStep_sends (hs : clientStep env c e = some h) :
    (∃ target plain, e = .notify target plain ∧
      h.sends = if c.state = .registered then [sentFor env c target plain] else []) ∨
    (∀ i : ι, e.notified env c i = []) ∧
      ∀ m ∈ h.sends, ∃ cmd body, m = ddMsg cmd body ∧ cmd ∉ [Cmd.send, .forward] := by
  cases e with
  | notify target plain =>
    obtain ⟨-, rfl⟩ := clientStep_notify hs
    exact .inl ⟨target, plain, rfl, rfl⟩
  | _ =>
    refine .inr ⟨fun _ => rfl, fun m hm => ?_⟩
    cases clientStep_clientSends hs hm <;> exact ⟨_, _, rfl, by decide⟩

/-- The command of the messages a call is made for. -/
def Call.cmd : Call → Option Cmd
  | .onReg => some .regok
  | .onDiscon => none
  | .onData _ _ => some .data
  | .onPub _ _ _ => some .pub
  | .onError _ _ => some .error

/-- **A command leads to its own calls** and no others. -/
theorem cmd_of_mem_calls {cmd : Cmd} {body : List Frame}
    (hs : onClientCmd env c cmd body = some h) {call : Call} (hcall : call ∈ h.calls) :
    call.cmd = some cmd := by
  cases cmd with
  | data =>
    simp only [onClientCmd, cbData] at hs
    split at hs
    · obtain ⟨o, -, rfl⟩ := Option.map_eq_some_iff.mp hs
      obtain ⟨_, -, rfl⟩ := List.mem_map.mp hcall
      rfl
    · cases hs
  | pub =>
    simp only [onClientCmd, cbPub] at hs
    split at hs
    · obtain ⟨o, -, rfl⟩ := Option.map_eq_some_iff.mp hs
      obtain ⟨_, -, rfl⟩ := List.mem_map.mp hcall
      rfl
    · cases hs
  | error =>
    simp only [onClientCmd, cbError] at hs
    split at hs
    · cases hs
      cases hcall
    · cases hs
    · obtain ⟨code, -, rfl⟩ := Option.map_eq_some_iff.mp hs
      rw [List.mem_singleton.mp hcall]
      rfl
  | chall =>
    simp only [onClientCmd, cbChall] at hs
    split at hs
    · cases hs
    · obtain ⟨o, -, rfl⟩ := Option.map_eq_some_iff.mp hs
      cases o <;> cases hcall
  | regok =>
    simp only [onClientCmd, cbRegok] at hs
    split at hs
    · cases hs
      cases hcall
    · obtain ⟨cookie, -, rfl⟩ := Option.map_eq_some_iff.mp hs
      rw [List.mem_singleton.mp hcall]
      rfl
  | subok =>
    simp only [onClientCmd, cbSubok] at hs
    split at hs
    · cases hs
      cases hcall
    · cases hs
  | pong | send | forward | ping | addlcl | adddcl | addbr | unreg | unregdcli | unregbr | challok
  | sub | unsub =>
    cases hs
    cases hcall

/-- No `on_data` among these calls. -/
theorem filterMap_delivered {i : ι} {msg : List Frame} {calls : List Call}
    (h : ∀ source data, Call.onData source data ∉ calls) :
    calls.filterMap (Call.delivered i msg) = [] := by
  rw [List.filterMap_eq_nil_iff]
  intro call hcall
  cases call with
  | onData source data => exact absurd hcall (h source data)
  | _ => rfl

/-- **What `on_data` is called with** — the source of a `DATA` and its frame, opened under the key
for this source; and it is called once. -/
theorem clientStep_delivered (i : ι) (hs : clientStep env c e = some h) :
    e.delivered i h.calls = [] ∨ ∃ msg source encrypted rest data, e = .message msg ∧
      dealerCmd msg = some (.data, source :: encrypted :: rest) ∧
      openFrame env encrypted (sourceKey c.keys (CStr.ofBytes source)) = some (some data) ∧
      e.delivered i h.calls = [⟨i, msg, CStr.ofBytes source, data⟩] := by
  cases e with
  | message msg =>
    simp only [ClientEvent.delivered]
    rw [clientStep] at hs
    cases hmsg : dealerCmd msg with
    | none =>
      rw [sOnClientMsg_of_dealerCmd_none hmsg hs]
      exact .inl rfl
    | some p =>
      obtain ⟨cmd, body⟩ := p
      rw [sOnClientMsg_of_dealerCmd hmsg] at hs
      by_cases hdata : cmd = .data
      · subst hdata
        rcases body with _ | ⟨source, _ | ⟨encrypted, rest⟩⟩
        · cases hs
        · cases hs
        · obtain ⟨o, ho, rfl⟩ := Option.map_eq_some_iff.mp hs
          cases o with
          | none => exact .inl rfl
          | some data => exact .inr ⟨msg, source, encrypted, rest, data, rfl, hmsg, ho, rfl⟩
      · refine .inl (filterMap_delivered fun source data hcall => hdata ?_)
        exact (Option.some.inj (cmd_of_mem_calls hs hcall)).symm
  | _ => exact .inl rfl

end

/-! ## What the broker passes on -/

section

variable [DecidableEq H] {env : Env H} {b b' : DdBroker H} {sends : List Send}

/-- **Routing delivers once**: a `DATA` is all it sends. -/
theorem carry_data {srcpublic dstpublic : Bool} {src dst : CStr} {payload : List Frame}
    {nodst : Outcome H} (hnodst : ∀ x ∈ nodst.sends, x.cmd = some .error)
    (h : carry env b srcpublic dstpublic src dst payload nodst = .done b' sends) {x : Send}
    (hx : x ∈ sends) (hdata : x.cmd = some .data) :
    ∃ ln source, hashtableHasRevLocalNode env b dst = some ln ∧
      shownSource srcpublic dstpublic src = some source ∧
      sends = [.rsock ln.sockid (ddMsg .data (source.bytes :: payload))] := by
  unfold carry at h
  cases hrev : hashtableHasRevLocalNode env b dst with
  | some ln =>
    simp only [hrev, deliver_eq] at h
    cases hsource : shownSource srcpublic dstpublic src with
    | none =>
      rw [hsource] at h
      cases h
    | some source =>
      rw [hsource] at h
      cases h
      exact ⟨ln, source, rfl, rfl, rfl⟩
  | none =>
    simp only [hrev] at h
    cases hdist : hashtableHasDistNode env b dst with
    | some dn =>
      simp only [hdist] at h
      cases h
      rw [List.mem_singleton.mp hx, cmd_rsock] at hdata
      cases hdata
    | none =>
      simp only [hdist] at h
      split at h
      · rw [hnodst x (by rw [h]; exact hx)] at hdata
        cases hdata
      · cases h
        unfold forwardUp at hx
        split at hx
        · rw [List.mem_singleton.mp hx, cmd_dsock] at hdata
          cases hdata
        · cases hx

omit [DecidableEq H] in
/-- The command of a message to a peer. -/
theorem cmd_of_toPeer {x : Send} {dest : Frame} {d body : List Frame} {cmd : Cmd}
    (hpeer : x.toPeer = some (dest, d)) (hcmd : dealerCmd d = some (cmd, body)) :
    x.cmd = some cmd := by
  cases x with
  | rsock dest' d' =>
    cases hpeer
    exact (cmd_of_dealerCmd hcmd _).1
  | _ => cases hpeer

/-- **Where a `DATA` comes from** when no broker forwards — a `SEND` that is accepted for a client,
and the `DATA` is all that is sent for it. -/
theorem step_delivers (hinj : Function.Injective env.xxh32) (hok : TablesOk env b) {s : Frame}
    {m : List Frame} (hforward : ∀ body, dealerCmd m ≠ some (.forward, body))
    (h : step env b (.router (s :: m)) = .done b' sends) {dest : Frame} {d body : List Frame}
    (hd : (dest, d) ∈ sends.filterMap Send.toPeer) (hdata : dealerCmd d = some (.data, body)) :
    ∃ cookie target payload ln ln' source,
      dealerCmd m = some (.send, cookie :: target :: payload) ∧
      acceptedFor env b s cookie = some ln ∧ ln' ∈ b.lclCliHt.nodes ∧ ln'.sockid = dest ∧
      ln'.prefixName = (resolve b.keys ln.tenant (CStr.ofBytes target)).1 ∧
      shownSource (decide (ln.tenant = publicName))
        (resolve b.keys ln.tenant (CStr.ofBytes target)).2 ln.prefixName = some source ∧
      body = source.bytes :: payload ∧ sends.filterMap Send.toPeer = [(dest, d)] := by
  obtain ⟨x, hx, hpeer⟩ := List.mem_filterMap.mp hd
  have hxcmd := cmd_of_toPeer hpeer hdata
  rcases sOnRouterMsg_eq env b (s :: m) with
    ⟨s', cmd₀, rest₀, hroute, heq⟩ | ⟨-, heq | ⟨_, heq, herr⟩⟩
  · rw [step, heq] at h
    have hsays := says_router b s' cmd₀ rest₀ x (by rw [h]; exact hx) _ hxcmd
    rw [routerCmd_cons] at hroute
    obtain ⟨⟨cmd, rest⟩, hm, hroute⟩ := Option.map_eq_some_iff.mp hroute
    cases hroute
    have hsend : cmd = .send := by
      cases cmd with
      | send => rfl
      | forward => exact absurd hm (hforward rest)
      | _ => simp [Cmd.answers] at hsays
    subst hsend
    rcases rest with _ | ⟨cookie, rest⟩
    · cases h
      cases hx
    · rw [onRouterCmd] at h
      cases hln : hashtableHasLocalNode env b s cookie with
      | none =>
        simp only [sCbSend, hln] at h
        cases h
      | some o =>
        cases o with
        | none =>
          simp only [sCbSend, hln] at h
          cases h
          cases hx
        | some ln =>
          rcases rest with _ | ⟨target, payload⟩
          · simp only [sCbSend, hln, zmsgPopstr] at h
            cases h
          · rw [sCbSend_eq hln] at h
            obtain ⟨ln', source, hrev, hsource, rfl⟩ :=
              carry_data (fun _ => sendNodst_cmd) h hx hxcmd
            cases List.mem_singleton.mp hx
            cases hpeer
            rw [dealerCmd_ddMsg] at hdata
            cases hdata
            obtain ⟨hmem, hname⟩ := ((sameTables_touch b ln).tablesOk hok).of_hasRev hinj hrev
            exact ⟨cookie, target, payload, ln, ln', source, hm, acceptedFor_eq_some.mpr hln, hmem,
              rfl, hname, hsource, rfl, rfl⟩
  · rw [step, heq] at h
    cases h
  · rw [step, heq] at h
    cases h
    rw [herr x hx] at hxcmd
    cases hxcmd

/-- **A client that was not there** was entered for a `CHALLOK`, under the name in it. -/
theorem entered_step {e : Event} (h : step env b e = .done b' sends) {c : LocalClient}
    (hc : c ∈ b'.lclCliHt.nodes) : c ∈ b.lclCliHt.nodes ∨
      ∃ s m cook hash name rest ten, e = .router (s :: m) ∧
        dealerCmd m = some (.challok, cook :: hash :: name :: rest) ∧
        b.keys.tenant (CStr.ofBytes hash) = some ten ∧ c = ten.entry (CStr.ofBytes name) s := by
  obtain hold | ⟨sockid, hash, ten, name, hreq, -, rfl⟩ := (step_frame h).clients c hc
  · exact .inl hold
  · right
    obtain ⟨msg, cook, hashFrame, nameFrame, rest, rfl, hmsg, -, rfl, hten⟩ := request_register hreq
    have hname : name = CStr.ofBytes nameFrame := by
      simp only [request, hmsg, routerRequest, challokRequest] at hreq
      split at hreq
      · split at hreq <;> cases hreq
      · split at hreq
        · cases hreq
        · split at hreq
          · cases hreq
            rfl
          · cases hreq
    subst hname
    obtain ⟨m, rfl⟩ := exists_of_routerCmd hmsg
    rw [routerCmd_cons] at hmsg
    obtain ⟨⟨cmd, body⟩, hm, heq⟩ := Option.map_eq_some_iff.mp hmsg
    cases heq
    exact ⟨_, _, cook, hashFrame, nameFrame, rest, ten, rfl, hm, hten, rfl⟩

/-- The events of a broker alone send no `DATA`. -/
theorem not_data_of_isOwn {e : Event} (hown : e.isOwn) (h : step env b e = .done b' sends)
    {dest : Frame} {d body : List Frame} (hd : (dest, d) ∈ sends.filterMap Send.toPeer) :
    dealerCmd d ≠ some (.data, body) := by
  intro hdata
  obtain ⟨x, hx, hpeer⟩ := List.mem_filterMap.mp hd
  have hxcmd := cmd_of_toPeer hpeer hdata
  have hsays := says_step b e x (by rw [h]; exact hx) _ hxcmd
  cases e with
  | router | dealer => cases hown
  | subN | subS | pubN | pubS | register | heartbeat | checkCliTimeout | checkBrTimeout =>
    simp [Event.answers] at hsays

end

end DoubleDecker
