import DoubleDecker.Broker.HTable

/-!
# Broker/Handlers — the commands of a broker

The `s_cb_*` functions of `broker.c`.  Each takes the frames left after the dispatch and returns an
`Outcome`: where the C code follows a `NULL` pointer, reads past a frame or fails an assertion the
outcome is a fault.  Log lines are left out.
-/

namespace DoubleDecker

open Trie

variable {H : Type} [DecidableEq H] (env : Env H)

/-! ## Helper functions -/

section

variable {H : Type}

/-- `add_cli_up`. -/
def addCliUp (self : DdBroker H) (prefixName : CStr) (distance : UInt32) : List Send :=
  if self.state = .registered then
    [.dsock (ddMsg .adddcl [self.keys.cookie.1, prefixName.bytes, le32 distance])]
  else []

/-- `del_cli_up`. -/
def delCliUp (self : DdBroker H) (prefixName : CStr) : List Send :=
  if self.state ≠ .root then
    [.dsock (ddMsg .unregdcli [self.keys.cookie.1, prefixName.bytes])]
  else []

/-- `forward_locally`. -/
def forwardLocally (destSockid : Frame) (srcString : CStr) (msg : List Frame) : List Send :=
  [.rsock destSockid (ddMsg .data (srcString.bytes :: msg))]

/-- `forward_down`. -/
def forwardDown (srcString dstString : CStr) (brSockid : Frame) (msg : List Frame) : List Send :=
  [.rsock brSockid (ddMsg .forward (srcString.bytes :: dstString.bytes :: msg))]

/-- `forward_up`. -/
def forwardUp (self : DdBroker H) (srcString dstString : CStr) (msg : List Frame) : List Send :=
  if self.state = .registered then
    [.dsock (ddMsg .forward (self.keys.cookie.1 :: srcString.bytes :: dstString.bytes :: msg))]
  else []

/-- `dest_invalid_rsock`. -/
def destInvalidRsock (sockid : Frame) (srcString dstString : CStr) : List Send :=
  [.rsock sockid (ddMsg .error [le32 ddErrorNodst, dstString.bytes, srcString.bytes])]

/-- `dest_invalid_dsock`: its picture `bbss` takes the address of the error code for a string, and
the length 4 that follows for the address of another. -/
def destInvalidDsock (_srcString _dstString : CStr) : Outcome H := .fault []

/-- `remote_reg_failed`. -/
def remoteRegFailed (sockid : Frame) (cliName : CStr) : List Send :=
  [.rsock sockid (ddMsg .error [le32 ddErrorRegfail, cliName.bytes])]

/-- The tenant a notification is stripped of: whether exactly one side is public decides. -/
def keepsTenant (srcpublic dstpublic : Bool) : Bool := srcpublic != dstpublic

/-- The delivery to a local client: the source string as it is, or what follows its first dot. -/
def deliver (self : DdBroker H) (ln : LocalClient) (srcpublic dstpublic : Bool) (srcString : CStr)
    (msg : List Frame) : Outcome H :=
  if keepsTenant srcpublic dstpublic then .done self (forwardLocally ln.sockid srcString msg)
  else
    match srcString.after dot with
    | none => .fault []
    | some name => .done self (forwardLocally ln.sockid name msg)

end

/-! ## Messages from the higher broker -/

/-- `s_cb_high_error`. -/
def sCbHighError (self : DdBroker H) (msg : List Frame) : Outcome H :=
  match zmsgPop msg with
  | (none, _) => .done self []
  | (some codeFrame, msg) =>
    match readU32 codeFrame with
    | none => .fault []
    | some code =>
      if code = ddErrorNodst then
        match zmsgPopstr msg with
        | (dstString, msg) =>
          match zmsgPopstr msg with
          | (none, _) => .fault []
          | (some srcString, _) =>
            match hashtableHasRevLocalNode env self srcString, dstString with
            | some _, none => .fault []
            | some ln, some dstString =>
              match dstString.after dot with
              | none => .fault []
              | some name => .done self (destInvalidRsock ln.sockid srcString name)
            | none, dstString =>
              match hashtableHasDistNode env self srcString, dstString with
              | none, _ => .done self []
              | some _, none => .fault []
              | some dn, some dstString =>
                .done self (destInvalidRsock dn.broker srcString dstString)
      else if code = ddErrorRegfail then
        match zmsgPopstr msg with
        | (none, _) => .fault []
        | (some cliName, _) =>
          match hashtableHasRevLocalNode env self cliName with
          | some ln =>
            match removeSubscriptions env self ln.sockid with
            | none => .fault []
            | some (self, _) =>
              let self := hashtableUnlinkLocalNode env self ln.sockid ln.cookie
              let self := hashtableUnlinkRevLocalNode env self ln.prefixName
              .done self (remoteRegFailed ln.sockid ⟨CStr.ascii "remote", by decide⟩)
          | none =>
            match hashtableHasDistNode env self cliName with
            | some dn =>
              .done (hashtableRemoveDistNode env self cliName) (remoteRegFailed dn.broker cliName)
            | none => .done self []
      else .done self []

/-- `s_cb_chall`: a challenge that does not decrypt leads to the destruction of a frame that was
never created. -/
def sCbChall (self : DdBroker H) (msg : List Frame) : Outcome H :=
  match zmsgPop msg with
  | (none, _) => .fault []
  | (some encrypted, msg) =>
    let self := { self with brokerId := (zmsgPop msg).1 }
    if encrypted.length < 24 then .fault []
    else
      match env.boxOpenEasyAfternm (encrypted.drop 24) (encrypted.take 24) self.keys.ddboxk with
      | none => .fault []
      | some decrypted =>
        .done self [.dsock (ddMsg .challok
          [decrypted, self.keys.hash.bytes, CStr.ascii "broker"])]

/-- `s_cb_forward_dsock`. -/
def sCbForwardDsock (self : DdBroker H) (msg : List Frame) : Outcome H :=
  match msg with
  | src :: dst :: msg =>
    let src := CStr.ofBytes src
    let dst := CStr.ofBytes dst
    let srcpublic := src.startsWith publicDot
    let dstpublic := dst.startsWith publicDot
    match hashtableHasRevLocalNode env self dst with
    | some ln => deliver self ln srcpublic dstpublic src msg
    | none =>
      match hashtableHasDistNode env self dst with
      | some dn => .done self (forwardDown src dst dn.broker msg)
      | none =>
        if self.state = .root then destInvalidDsock src dst
        else .done self (forwardUp self src dst msg)
  | _ => .done self []

/-- `s_cb_regok`: the clients known so far are announced, and the publications of the higher broker
are connected when the message has the two endpoints.  It starts a heartbeat also when one runs. -/
def sCbRegok (self : DdBroker H) (msg : List Frame) : Outcome H :=
  let self := { self with state := .registered }
  let sends := self.lclCliHt.nodes.flatMap (fun np => addCliUp self np.prefixName 0) ++
    self.distCliHt.nodes.flatMap fun nd => addCliUp self nd.name nd.distance
  let loop := self.loop.timerEnd self.regLoop
  .done { self with
    loop := loop.timer .sHeartbeat
    heartbeatLoop := loop.nextTimerId
    connectedN := self.connectedN || decide (msg.length = 3) } sends

/-! ## Messages from lower brokers -/

/-- `s_cb_addbr`: without a hash it destroys the message, and `s_on_router_msg` does so again. -/
def sCbAddbr (self : DdBroker H) (sockid : Frame) (msg : List Frame) : Outcome H :=
  match zmsgPopstr msg with
  | (none, _) => .fault []
  | (some hash, _) =>
    if hash ≠ self.keys.hash then .done self []
    else
      let nonce := env.nonceIncrement self.nonce
      let ciphertext := nonce ++ env.boxEasyAfternm self.keys.cookie.1 nonce self.keys.ddboxk
      .done { self with nonce := nonce } [.rsock sockid (ddMsg .chall [ciphertext, sockid])]

/-- `s_cb_adddcl`. -/
def sCbAdddcl (self : DdBroker H) (sockid cookieFrame : Frame) (msg : List Frame) : Outcome H :=
  match readCookie cookieFrame with
  | none => .fault []
  | some cookie =>
    match hashtableHasLocalBroker env self sockid cookie with
    | none => .fault []
    | some none => .done self []
    | some (some _) =>
      match zmsgPopstr msg with
      | (none, _) => .fault []
      | (some name, msg) =>
        match zmsgPop msg with
        | (none, _) => .fault []
        | (some distFrame, _) =>
          if (hashtableHasRevLocalNode env self name).isSome then
            .done self (remoteRegFailed sockid name)
          else if (hashtableHasDistNode env self name).isSome then
            .done self (remoteRegFailed sockid name)
          else
            match readU32 distFrame with
            | none => .fault []
            | some dist =>
              .done (hashtableInsertDistNode env self name sockid dist) (addCliUp self name dist)

/-- `s_cb_unreg_dist_cli`. -/
def sCbUnregDistCli (self : DdBroker H) (sockid cookieFrame : Frame) (msg : List Frame) :
    Outcome H :=
  match readCookie cookieFrame with
  | none => .fault []
  | some cookie =>
    match hashtableHasLocalBroker env self sockid cookie with
    | none => .fault []
    | some none => .done self []
    | some (some _) =>
      match zmsgPopstr msg with
      | (none, _) => .fault []
      | (some name, _) =>
        if (hashtableHasDistNode env self name).isSome then
          .done (hashtableRemoveDistNode env self name) (delCliUp self name)
        else .done self []

/-- `s_cb_forward_rsock`. -/
def sCbForwardRsock (self : DdBroker H) (sockid cookieFrame : Frame) (msg : List Frame) :
    Outcome H :=
  match readCookie cookieFrame with
  | none => .fault []
  | some cookie =>
    match hashtableHasLocalBroker env self sockid cookie with
    | none => .fault []
    | some none => .done self []
    | some (some np) =>
      let self := self.touchBroker np
      match msg with
      | src :: dst :: msg =>
        let srcString := CStr.ofBytes src
        let dstString := CStr.ofBytes dst
        let srcpublic := srcString.startsWith publicDot
        let dstpublic := dstString.startsWith publicDot
        match hashtableHasRevLocalNode env self dstString with
        | some ln => deliver self ln srcpublic dstpublic srcString msg
        | none =>
          match hashtableHasDistNode env self dstString with
          | some dn => .done self (forwardDown srcString dstString dn.broker msg)
          | none =>
            if self.state = .root then .done self (destInvalidRsock sockid srcString dstString)
            else .done self (forwardUp self srcString dstString msg)
      | _ => .done self []

/-! ## Registration of clients -/

/-- `s_cb_addlcl`. -/
def sCbAddlcl (self : DdBroker H) (sockid : Frame) (msg : List Frame) : Outcome H :=
  match zmsgPopstr msg with
  | (none, _) => .done self []
  | (some hash, _) =>
    match self.keys.tenant hash with
    | none => .done self [.rsock sockid (ddMsg .error
        [le32 ddErrorRegfail, CStr.ascii "Authentication failed!"])]
    | some ten =>
      let nonce := env.nonceIncrement self.nonce
      let ciphertext := nonce ++ env.boxEasyAfternm ten.cookie.1 nonce ten.boxk
      .done { self with nonce := nonce } [.rsock sockid (ddMsg .chall [ciphertext])]

/-- The branch of `s_cb_challok` for a tenant: the client is entered, answered and announced.  The
name it is announced under is printed into 200 bytes. -/
def registerClient (self : DdBroker H) (sockid : Frame) (ten : DdTenant) (clientName : CStr) :
    Outcome H :=
  match insertLocalClient env self sockid ten clientName with
  | none => .fault []
  | some none => .done self (remoteRegFailed sockid ⟨CStr.ascii "local", by decide⟩)
  | some (some self) =>
    let up := if self.state ≠ .root then addCliUp self (joined 199 ten.name clientName) 0 else []
    .done self (.rsock sockid (ddMsg .regok [ten.cookie.1]) :: up)

/-- `s_cb_challok`. -/
def sCbChallok (self : DdBroker H) (sockid : Frame) (msg : List Frame) : Outcome H :=
  match msg with
  | [] => .fault []
  | cook :: hash :: clientName :: _ =>
    let hash := CStr.ofBytes hash
    let clientName := CStr.ofBytes clientName
    if hash = self.keys.hash then
      match readCookie cook with
      | none => .fault []
      | some cookie =>
        if self.keys.cookie ≠ cookie then .done self []
        else
          match hashtableHasLocalBroker env self sockid cookie with
          | none => .fault []
          | some (some _) => .done self []
          | some none =>
            .done (hashtableInsertLocalBroker env self sockid cookie)
              [.rsock sockid (ddMsg .regok
                [self.keys.cookie.1, self.pubSEndpoint.bytes, self.subSEndpoint.bytes])]
    else
      match self.keys.tenant hash with
      | none => .done self []
      | some ten =>
        match readCookie cook with
        | none => .fault []
        | some cookie =>
          if ten.cookie ≠ cookie then .done self []
          else if clientName = publicName then .done self []
          else registerClient env self sockid ten clientName
  | _ => .done self []

/-- `s_cb_unreg_cli`. -/
def sCbUnregCli (self : DdBroker H) (sockid cookie : Frame) : Outcome H :=
  match hashtableHasLocalNode env self sockid cookie with
  | none => .fault []
  | some none => .done self []
  | some (some ln) =>
    match removeSubscriptions env self sockid with
    | none => .fault (delCliUp self ln.prefixName)
    | some (self', _) =>
      let self' := hashtableUnlinkLocalNode env self' ln.sockid ln.cookie
      .done (hashtableUnlinkRevLocalNode env self' ln.prefixName) (delCliUp self ln.prefixName)

/-! ## Notifications -/

/-- The loop of `s_cb_send` over the tenants: whether one of them starts the part of `dest` before
its first dot. -/
def namesTenant (keys : DdBrokerKeys) (dest : CStr) : Bool :=
  decide (dot ∈ dest.bytes) && keys.tenants.any fun k => (dest.before dot).startsWith k

/-- The destination `s_cb_send` looks for, and its final `dstpublic`. -/
def resolve (keys : DdBrokerKeys) (tenant dest : CStr) : CStr × Bool :=
  let srcpublic := decide (tenant = publicName)
  if dest.startsWith publicDot then (dest, true)
  else if srcpublic then
    if namesTenant keys dest then (dest, false) else (joined 255 tenant dest, true)
  else (joined 255 tenant dest, false)

/-- `s_cb_send`. -/
def sCbSend (self : DdBroker H) (sockid cookie : Frame) (msg : List Frame) : Outcome H :=
  match zmsgPopstr msg with
  | (dest, msg) =>
    match hashtableHasLocalNode env self sockid cookie with
    | none => .fault []
    | some none => .done self []
    | some (some ln) =>
      let self := self.touch ln
      match dest with
      | none => .fault []
      | some dest =>
        let srcpublic := decide (ln.tenant = publicName)
        let (dstString, dstpublic) := resolve self.keys ln.tenant dest
        let srcString := ln.prefixName
        match hashtableHasRevLocalNode env self dstString with
        | some ln => deliver self ln srcpublic dstpublic srcString msg
        | none =>
          match hashtableHasDistNode env self dstString with
          | some dn => .done self (forwardDown srcString dstString dn.broker msg)
          | none =>
            if self.state = .root then
              if keepsTenant srcpublic dstpublic then
                .done self (destInvalidRsock sockid srcString dstString)
              else
                match srcString.after dot, dstString.after dot with
                | some src, some dst => .done self (destInvalidRsock sockid src dst)
                | _, _ => .fault []
            else .done self (forwardUp self srcString dstString msg)

/-- `s_cb_ping`. -/
def sCbPing (self : DdBroker H) (sockid cookie : Frame) : Outcome H :=
  match hashtableHasLocalNode env self sockid cookie with
  | none => .fault []
  | some (some np) => .done (self.touch np) [.rsock sockid (ddMsg .pong [])]
  | some none =>
    match readCookie cookie with
    | none => .fault []
    | some cook =>
      match hashtableHasLocalBroker env self sockid cook with
      | none => .fault []
      | some (some np) => .done (self.touchBroker np) [.rsock sockid (ddMsg .pong [])]
      | some none => .done self []

/-! ## Publications -/

/-- The `PUB` messages for the socket ids `nn_trie_tree` returned. -/
def pubLocally (socks : Option (List Frame)) (name topic : CStr) (msg : List Frame) : List Send :=
  (socks.getD []).map fun s => .rsock s (ddMsg .pub (name.bytes :: topic.bytes :: msg))

omit [DecidableEq H] in
/-- What `s_cb_pub` makes of a topic that is not empty: the topic handed to local clients, the
composed topic and the source string. -/
def composeTopic (self : DdBroker H) (ln : LocalClient) (topic : CStr) : CStr × CStr × CStr :=
  let dstpublic := topic.startsWith publicDot
  let exact := decide (topic.bytes.getLast? = some 36)
  let topic := if exact then topic.truncate (topic.length - 1) else topic
  let prefixTopic := if exact then topic else (topic ++ self.brokerScope).truncate 255
  if dstpublic then (topic, prefixTopic, ln.prefixName)
  else (topic, joined 255 ln.tenant prefixTopic, ln.name)

/-- `s_cb_pub`. -/
def sCbPub (self : DdBroker H) (sockid cookie : Frame) (msg : List Frame) : Outcome H :=
  match zmsgPopstr msg with
  | (topic, msg) =>
    match zmsgPop msg with
    | (_, msg) =>
      match hashtableHasLocalNode env self sockid cookie with
      | none => .fault []
      | some none => .done self []
      | some (some ln) =>
        let self := self.touch ln
        match topic with
        | none => .fault []
        | some topic =>
          if topic.bytes = [] then .fault []
          else
            match composeTopic self ln topic with
            | (topic, pubtopic, name) =>
              match self.connectedN, self.brokerId with
              | true, none => .fault []
              | connectedN, brokerId =>
                let north : List Send := if connectedN then
                  [.pubN (pubtopic.bytes :: name.bytes :: brokerId.getD [] :: msg)] else []
                let south : List Send := [.pubS (pubtopic.bytes :: name.bytes :: [] :: msg)]
                match nnTrieTree self.topicsTrie pubtopic.bytes with
                | none => .fault (north ++ south)
                | some socks => .done self (north ++ south ++ pubLocally socks name topic msg)

/-! ## Subscriptions -/

/-- The scope part of a subscription, printed into 128 bytes: `*` stands for the broker's own scope
at that place.  More places than the broker's scope has, or more text than the buffer holds before
the last slash, leave memory the code may use. -/
def newscope (scope : List CStr) (scopestr : CStr) : Option CStr :=
  if scopestr = ⟨CStr.ascii "noscope", by decide⟩ then some ∅
  else
    let tokens := scopestr.tokens slash
    if scope.length < tokens.length then none
    else
      let pieces := List.zipWith
        (fun token t => if token.bytes = [42] then slashStr ++ t else slashStr ++ token)
        tokens scope
      let text : CStr := pieces.foldl (· ++ ·) ∅
      if 128 < text.length then none
      else some ((text ++ slashStr).truncate 127)

/-- The key `s_cb_sub` and `s_cb_unsub` compose: tenant, topic and scope in 256 bytes. -/
def subTopic (tenant topic scope : CStr) : CStr := (tenant ++ dotStr ++ topic ++ scope).truncate 255

omit [DecidableEq H] in
/-- The subscription or unsubscription of a key sent on both sub sockets. -/
def tellSubs (self : DdBroker H) (first : UInt8) (key : CStr) : List Send :=
  (if self.connectedN then [.subN [first :: key.bytes]] else []) ++ [.subS [first :: key.bytes]]

/-- What a `SUB` or `UNSUB` of a client asks for: the topic, the scope and the composed key.  The
error answer for the topic `public` has one argument less than its format asks for. -/
def subRequest (scope : List CStr) (ln : LocalClient) (msg : List Frame) :
    Option (CStr × CStr × CStr) :=
  match zmsgPopstr msg with
  | (none, _) => none
  | (some topic, msg) =>
    match zmsgPopstr msg with
    | (none, _) => none
    | (some scopestr, _) =>
      if topic = publicName then none
      else (newscope scope scopestr).map fun newscope =>
        (topic, scopestr, subTopic ln.tenant topic newscope)

/-- `s_cb_sub`. -/
def sCbSub (self : DdBroker H) (sockid cookie : Frame) (msg : List Frame) : Outcome H :=
  match hashtableHasLocalNode env self sockid cookie with
  | none => .fault []
  | some none => .done self []
  | some (some ln) =>
    let self := self.touch ln
    match subRequest self.scope ln msg with
    | none => .fault []
    | some (topic, scopestr, key) =>
      let subok : List Send := [.rsock sockid (ddMsg .subok [topic.bytes, scopestr.bytes])]
      match insertSubscription env self sockid key with
      | none => .fault subok
      | some (self, _) =>
        match nnTrieSubscribe self.topicsTrie key.bytes sockid with
        | none => .fault subok
        | some (root, retval) =>
          .done { self with topicsTrie := root }
            (if retval = 2 then subok ++ tellSubs self 1 key else subok)

/-- `s_cb_unsub`. -/
def sCbUnsub (self : DdBroker H) (sockid cookie : Frame) (msg : List Frame) : Outcome H :=
  match hashtableHasLocalNode env self sockid cookie with
  | none => .fault []
  | some none => .done self []
  | some (some ln) =>
    let self := self.touch ln
    match subRequest self.scope ln msg with
    | none => .fault []
    | some (_, _, key) =>
      match removeSubscription env self sockid key with
      | none => .fault []
      | some (self, retval) => .done self (if retval = 0 then [] else tellSubs self 0 key)

end DoubleDecker
