import DoubleDecker.Broker.Tables

/-!
# Broker/Requests — what a step does to the tables

A `Request` is the change of the tables an event asks for, decoded from the message and the lookups
that authorise it; `Request.effect` carries it out on the tables alone.  `step_effect`: a step does
what its request says and nothing else, up to timeouts, timers and sockets.
-/

namespace DoubleDecker

open Trie

variable {H : Type} [DecidableEq H] (env : Env H)

/-! ## Decoding -/

/-- The source, the command and the remaining frames of a message of the right version. -/
def routerCmd : List Frame → Option (Frame × Cmd × List Frame)
  | source :: proto :: cmdFrame :: msg =>
    if readU32 proto = some ddVersion then
      ((readU32 cmdFrame).bind Cmd.ofCode).map fun cmd => (source, cmd, msg)
    else none
  | _ => none

/-- A router message begins with the socket id. -/
theorem exists_of_routerCmd {msg rest : List Frame} {source : Frame} {cmd : Cmd}
    (h : routerCmd msg = some (source, cmd, rest)) : ∃ tail, msg = source :: tail := by
  unfold routerCmd at h
  split at h
  · split at h
    · obtain ⟨c, -, h⟩ := Option.map_eq_some_iff.mp h
      cases h
      exact ⟨_, rfl⟩
    · cases h
  · cases h

/-- The command and the remaining frames of a message from the higher broker. -/
def dealerCmd : List Frame → Option (Cmd × List Frame)
  | proto :: cmdFrame :: msg =>
    if readU32 proto = some ddVersion then
      ((readU32 cmdFrame).bind Cmd.ofCode).map fun cmd => (cmd, msg)
    else none
  | _ => none

/-- The command of a message, read from its second frame. -/
def Send.cmd : Send → Option Cmd
  | .rsock _ (_ :: c :: _) => (readU32 c).bind Cmd.ofCode
  | .dsock (_ :: c :: _) => (readU32 c).bind Cmd.ofCode
  | _ => none

/-- The frames of a message for the peer with this socket id. -/
def Send.toSocket (s : Frame) : Send → Option (List Frame)
  | .rsock dest msg => if dest = s then some msg else none
  | _ => none

/-- The frames of a message for the higher broker. -/
def Send.toHigher : Send → Option (List Frame)
  | .dsock msg => some msg
  | _ => none

@[simp] theorem cmd_rsock (dest : Frame) (c : Cmd) (body : List Frame) :
    (Send.rsock dest (ddMsg c body)).cmd = some c := by simp [Send.cmd, ddMsg]

@[simp] theorem cmd_dsock (c : Cmd) (body : List Frame) :
    (Send.dsock (ddMsg c body)).cmd = some c := by simp [Send.cmd, ddMsg]

@[simp] theorem routerCmd_ddMsg (source : Frame) (c : Cmd) (body : List Frame) :
    routerCmd (source :: ddMsg c body) = some (source, c, body) := by simp [routerCmd, ddMsg]

@[simp] theorem dealerCmd_ddMsg (c : Cmd) (body : List Frame) :
    dealerCmd (ddMsg c body) = some (c, body) := by simp [dealerCmd, ddMsg]

/-- The command of a message over a router socket is that of the message its source sent. -/
theorem routerCmd_cons (s : Frame) (m : List Frame) :
    routerCmd (s :: m) = (dealerCmd m).map fun p => (s, p.1, p.2) := by
  unfold routerCmd dealerCmd
  rcases m with _ | ⟨proto, _ | ⟨cmd, rest⟩⟩
  · rfl
  · rfl
  · simp only
    split
    · rw [Option.map_map]
      rfl
    · rfl

theorem cmd_of_dealerCmd {m rest : List Frame} {cmd : Cmd} (h : dealerCmd m = some (cmd, rest))
    (d : Frame) : (Send.rsock d m).cmd = some cmd ∧ (Send.dsock m).cmd = some cmd := by
  unfold dealerCmd at h
  rcases m with _ | ⟨proto, _ | ⟨cmdFrame, tail⟩⟩
  · cases h
  · cases h
  · simp only at h
    split at h
    · obtain ⟨cmd', hcmd, heq⟩ := Option.map_eq_some_iff.mp h
      cases heq
      exact ⟨hcmd, hcmd⟩
    · cases h

/-- **The router callback runs the handler of the command**, or answers a wrong version. -/
theorem sOnRouterMsg_eq (self : DdBroker H) (msg : List Frame) :
    (∃ source cmd rest, routerCmd msg = some (source, cmd, rest) ∧
      sOnRouterMsg env self msg = onRouterCmd env self source cmd rest) ∨
    (routerCmd msg = none ∧ (sOnRouterMsg env self msg = .fault [] ∨
      ∃ sends, sOnRouterMsg env self msg = .done self sends ∧
        ∀ s ∈ sends, s.cmd = some .error)) := by
  rcases msg with _ | ⟨source, _ | ⟨proto, _ | ⟨cmdFrame, rest⟩⟩⟩
  · exact Or.inr ⟨rfl, Or.inr ⟨[], rfl, by simp⟩⟩
  · exact Or.inr ⟨rfl, Or.inr ⟨[], rfl, by simp⟩⟩
  · exact Or.inr ⟨rfl, Or.inr ⟨[], rfl, by simp⟩⟩
  · simp only [sOnRouterMsg, routerCmd]
    cases hv : readU32 proto with
    | none => exact Or.inr ⟨rfl, Or.inl rfl⟩
    | some pver =>
      by_cases hver : pver = ddVersion
      · subst hver
        simp only [ne_eq, not_true_eq_false, if_false, if_true]
        cases hc : readU32 cmdFrame with
        | none => exact Or.inr ⟨rfl, Or.inl rfl⟩
        | some code =>
          simp only [Option.bind_some]
          cases hcmd : Cmd.ofCode code with
          | none => exact Or.inr ⟨rfl, Or.inr ⟨[], rfl, by simp⟩⟩
          | some cmd => exact Or.inl ⟨source, cmd, rest, rfl, rfl⟩
      · simp only [ne_eq, hver, not_false_eq_true, if_true, Option.some.injEq, if_false]
        refine Or.inr ⟨trivial, Or.inr ⟨_, rfl, fun s hs => ?_⟩⟩
        rw [List.mem_singleton.mp hs]
        simp [Send.cmd]

/-- **The dealer callback runs the handler of the command.** -/
theorem sOnDealerMsg_eq (self : DdBroker H) (msg : List Frame) :
    (∃ cmd rest, dealerCmd msg = some (cmd, rest) ∧
      sOnDealerMsg env self msg = onDealerCmd env { self with timeout := 0 } cmd rest) ∨
    (dealerCmd msg = none ∧ (sOnDealerMsg env self msg = .fault [] ∨
      sOnDealerMsg env self msg = .done { self with timeout := 0 } [])) := by
  rcases msg with _ | ⟨proto, _ | ⟨cmdFrame, rest⟩⟩
  · exact Or.inr ⟨rfl, Or.inr rfl⟩
  · exact Or.inr ⟨rfl, Or.inr rfl⟩
  · simp only [sOnDealerMsg, dealerCmd]
    cases hv : readU32 proto with
    | none => exact Or.inr ⟨rfl, Or.inl rfl⟩
    | some pver =>
      by_cases hver : pver = ddVersion
      · subst hver
        simp only [ne_eq, not_true_eq_false, if_false, if_true]
        cases hc : readU32 cmdFrame with
        | none => exact Or.inr ⟨rfl, Or.inl rfl⟩
        | some code =>
          simp only [Option.bind_some]
          cases hcmd : Cmd.ofCode code with
          | none => exact Or.inr ⟨rfl, Or.inr rfl⟩
          | some cmd => exact Or.inl ⟨cmd, rest, rfl, rfl⟩
      · simp only [ne_eq, hver, not_false_eq_true, if_true, Option.some.injEq, if_false]
        exact Or.inr ⟨trivial, Or.inr trivial⟩

/-- A message of the right version goes to the handler of its command. -/
theorem step_router {env : Env H} {self : DdBroker H} {msg rest : List Frame} {source : Frame}
    {cmd : Cmd} (h : routerCmd msg = some (source, cmd, rest)) :
    step env self (.router msg) = onRouterCmd env self source cmd rest := by
  obtain ⟨_, _, _, h', heq⟩ | ⟨h', -⟩ := sOnRouterMsg_eq env self msg
  · rw [h] at h'
    cases h'
    exact heq
  · rw [h] at h'
    cases h'

theorem step_dealer {env : Env H} {self : DdBroker H} {msg rest : List Frame} {cmd : Cmd}
    (h : dealerCmd msg = some (cmd, rest)) :
    step env self (.dealer msg) = onDealerCmd env { self with timeout := 0 } cmd rest := by
  obtain ⟨_, _, h', heq⟩ | ⟨h', -⟩ := sOnDealerMsg_eq env self msg
  · rw [h] at h'
    cases h'
    exact heq
  · rw [h] at h'
    cases h'

/-! ## Requests -/

/-- The change of the tables an event asks for. -/
inductive Request where
  | none
  /-- A tenant's `CHALLOK`. -/
  | register (sockid : Frame) (hash : CStr) (ten : DdTenant) (clientName : CStr)
  /-- A `SUB` or `UNSUB` accepted for a client. -/
  | sub (ln : LocalClient) (sockid : Frame) (key : CStr)
  | unsub (ln : LocalClient) (sockid : Frame) (key : CStr)
  /-- An `UNREG` accepted for a client. -/
  | leave (ln : LocalClient) (sockid : Frame)
  /-- A `REGFAIL` for a local client. -/
  | expel (ln : LocalClient)
  /-- The client timeouts. -/
  | expire
  /-- A broker's `CHALLOK`. -/
  | addBroker (sockid : Frame) (cookie : Cookie)
  /-- An `ADDDCL` or `UNREGDCLI` of a registered broker. -/
  | addDist (sockid : Frame) (name : CStr) (dist : UInt32)
  | delDist (sockid : Frame) (name : CStr)
  /-- A `REGFAIL` for a distant client. -/
  | dropDist (name : CStr)
  /-- The broker timeouts. -/
  | expireBrokers

/-- The client a command is accepted for. -/
def acceptedFor (self : DdBroker H) (sockid cookie : Frame) : Option LocalClient :=
  (hashtableHasLocalNode env self sockid cookie).join

/-- Whether a command comes from a registered broker. -/
def fromBroker (self : DdBroker H) (sockid cookieFrame : Frame) : Bool :=
  match readCookie cookieFrame with
  | .none => false
  | some cookie => ((hashtableHasLocalBroker env self sockid cookie).join).isSome

omit [DecidableEq H] in
/-- The request of a `CHALLOK`. -/
def challokRequest (self : DdBroker H) (sockid : Frame) : List Frame → Request
  | cook :: hash :: clientName :: _ =>
    let hash := CStr.ofBytes hash
    let clientName := CStr.ofBytes clientName
    if hash = self.keys.hash then
      if readCookie cook = some self.keys.cookie then .addBroker sockid self.keys.cookie else .none
    else
      match self.keys.tenant hash with
      | .none => .none
      | some ten =>
        if readCookie cook = some ten.cookie ∧ clientName ≠ publicName then
          .register sockid hash ten clientName
        else .none
  | _ => .none

/-- The request of a router message. -/
def routerRequest (self : DdBroker H) (sockid : Frame) : Cmd → List Frame → Request
  | .sub, cookie :: msg =>
    match acceptedFor env self sockid cookie with
    | .none => .none
    | some ln =>
      match subRequest self.scope ln msg with
      | .none => .none
      | some (_, _, key) => .sub ln sockid key
  | .unsub, cookie :: msg =>
    match acceptedFor env self sockid cookie with
    | .none => .none
    | some ln =>
      match subRequest self.scope ln msg with
      | .none => .none
      | some (_, _, key) => .unsub ln sockid key
  | .unreg, cookie :: _ =>
    match acceptedFor env self sockid cookie with
    | .none => .none
    | some ln => .leave ln sockid
  | .challok, msg => challokRequest self sockid msg
  | .adddcl, cookie :: name :: distFrame :: _ =>
    if fromBroker env self sockid cookie then
      if (hashtableHasRevLocalNode env self (CStr.ofBytes name)).isSome ∨
          (hashtableHasDistNode env self (CStr.ofBytes name)).isSome then .none
      else
        match readU32 distFrame with
        | .none => .none
        | some dist => .addDist sockid (CStr.ofBytes name) dist
    else .none
  | .unregdcli, cookie :: name :: _ =>
    if fromBroker env self sockid cookie then .delDist sockid (CStr.ofBytes name) else .none
  | _, _ => .none

/-- The request of a message from the higher broker: only a `REGFAIL` has one. -/
def dealerRequest (self : DdBroker H) : Cmd → List Frame → Request
  | .error, codeFrame :: cliName :: _ =>
    if readU32 codeFrame = some ddErrorRegfail then
      match hashtableHasRevLocalNode env self (CStr.ofBytes cliName) with
      | some ln => .expel ln
      | .none => .dropDist (CStr.ofBytes cliName)
    else .none
  | _, _ => .none

/-- The request of an event. -/
def request (self : DdBroker H) : Event → Request
  | .router msg =>
    match routerCmd msg with
    | .none => .none
    | some (sockid, cmd, rest) => routerRequest env self sockid cmd rest
  | .dealer msg =>
    match dealerCmd msg with
    | .none => .none
    | some (cmd, rest) => dealerRequest env self cmd rest
  | .checkCliTimeout => .expire
  | .checkBrTimeout => .expireBrokers
  | _ => .none

/-! ## Effects -/

/-- `hashtable_unlink_local_node` and `hashtable_unlink_rev_local_node` of a client. -/
def unlinkClient (self : DdBroker H) (ln : LocalClient) : DdBroker H :=
  hashtableUnlinkRevLocalNode env (hashtableUnlinkLocalNode env self ln.sockid ln.cookie)
    ln.prefixName

/-- A client that goes: the subscriptions of a socket id, then the client. -/
def removeClient (self : DdBroker H) (sockid : Frame) (ln : LocalClient) : Option (DdBroker H) :=
  (removeSubscriptions env self sockid).map fun p => unlinkClient env p.1 ln

/-- A subscription entered in both stores. -/
def addSubscription (self : DdBroker H) (sockid : Frame) (key : CStr) : Option (DdBroker H) :=
  (insertSubscription env self sockid key).bind fun p =>
    (nnTrieSubscribe p.1.topicsTrie key.bytes sockid).map fun q =>
      { p.1 with topicsTrie := q.1 }

/-- What an outcome leaves. -/
def Outcome.broker {H : Type} : Outcome H → Option (DdBroker H)
  | .done self _ => some self
  | .fault _ => none

omit [DecidableEq H] in
theorem Outcome.broker_eq_some {o : Outcome H} {b : DdBroker H} :
    o.broker = some b ↔ ∃ sends, o = .done b sends := by
  cases o with
  | done self sends => simp [Outcome.broker]
  | fault sends => simp [Outcome.broker]

/-- The request carried out. -/
def Request.effect (self : DdBroker H) : Request → Option (DdBroker H)
  | .none => some self
  | .register sockid _ ten clientName =>
    (insertLocalClient env self sockid ten clientName).map fun b => b.getD self
  | .sub _ sockid key => addSubscription env self sockid key
  | .unsub _ sockid key => (removeSubscription env self sockid key).map Prod.fst
  | .leave ln sockid => removeClient env self sockid ln
  | .expel ln => removeClient env self ln.sockid ln
  | .expire => (sCheckCliTimeout env self).broker
  | .addBroker sockid cookie =>
    (hashtableHasLocalBroker env self sockid cookie).map fun b =>
      if b.isSome then self else hashtableInsertLocalBroker env self sockid cookie
  | .addDist sockid name dist => some (hashtableInsertDistNode env self name sockid dist)
  | .delDist _ name =>
    some (if (hashtableHasDistNode env self name).isSome then
      hashtableRemoveDistNode env self name else self)
  | .dropDist name =>
    some (if (hashtableHasDistNode env self name).isSome then
      hashtableRemoveDistNode env self name else self)
  | .expireBrokers => (sCheckBrTimeout self).broker

/-- **Two brokers with the same tables**, whatever their timeouts, timers, sockets and nonces. -/
structure SameTables {H : Type} (a b : DdBroker H) : Prop where
  keys : b.keys = a.keys
  scope : b.scope = a.scope
  brokerScope : b.brokerScope = a.brokerScope
  topicsTrie : b.topicsTrie = a.topicsTrie
  lclCliHt : b.lclCliHt = a.lclCliHt
  revLclCliHt : b.revLclCliHt = a.revLclCliHt
  distCliHt : b.distCliHt = a.distCliHt
  lclBrHt : b.lclBrHt = a.lclBrHt
  subscribeHt : b.subscribeHt = a.subscribeHt

omit [DecidableEq H] in
theorem SameTables.refl (a : DdBroker H) : SameTables a a :=
  ⟨rfl, rfl, rfl, rfl, rfl, rfl, rfl, rfl, rfl⟩

omit [DecidableEq H] in
theorem sameTables_touch (a : DdBroker H) (c : LocalClient) : SameTables a (a.touch c) :=
  ⟨rfl, rfl, rfl, rfl, rfl, rfl, rfl, rfl, rfl⟩

omit [DecidableEq H] in
theorem sameTables_touchBroker (a : DdBroker H) (c : LocalBroker) :
    SameTables a (a.touchBroker c) :=
  ⟨rfl, rfl, rfl, rfl, rfl, rfl, rfl, rfl, rfl⟩

/-! ## A step does what its request says -/

/-- The outcome, when it is a state, has the tables of this broker. -/
def Outcome.Leaves {H : Type} (o : Outcome H) (b : Option (DdBroker H)) : Prop :=
  ∀ self' sends, o = .done self' sends → ∃ self₁, b = some self₁ ∧ SameTables self₁ self'

omit [DecidableEq H] in
theorem leaves_fault (sends : List Send) (b : Option (DdBroker H)) :
    (Outcome.fault sends).Leaves b := fun _ _ h => by cases h

omit [DecidableEq H] in
theorem leaves_done {self self' : DdBroker H} (h : SameTables self self') (sends : List Send) :
    (Outcome.done self' sends).Leaves (some self) := fun _ _ h' => by
  cases h'
  exact ⟨self, rfl, h⟩

omit [DecidableEq H] in
theorem leaves_deliver {self self' : DdBroker H} (h : SameTables self self') (ln : LocalClient)
    (srcpublic dstpublic : Bool) (srcString : CStr) (msg : List Frame) :
    (deliver self' ln srcpublic dstpublic srcString msg).Leaves (some self) := by
  unfold deliver
  split
  · exact leaves_done h _
  · split
    · exact leaves_fault _ _
    · exact leaves_done h _

variable {env}

theorem leaves_send (self : DdBroker H) (sockid cookie : Frame) (msg : List Frame) :
    (sCbSend env self sockid cookie msg).Leaves (some self) := by
  unfold sCbSend
  simp only
  split
  · exact leaves_fault _ _
  · exact leaves_done (.refl self) _
  · next ln _ =>
    have same := sameTables_touch self ln
    split
    · exact leaves_fault _ _
    · split
      · exact leaves_deliver same _ _ _ _ _
      · split
        · exact leaves_done same _
        · split
          · split
            · exact leaves_done same _
            · split
              · exact leaves_done same _
              · exact leaves_fault _ _
          · exact leaves_done same _

theorem leaves_forward_rsock (self : DdBroker H) (sockid cookie : Frame) (msg : List Frame) :
    (sCbForwardRsock env self sockid cookie msg).Leaves (some self) := by
  unfold sCbForwardRsock
  split
  · exact leaves_fault _ _
  · split
    · exact leaves_fault _ _
    · exact leaves_done (.refl self) _
    · next np _ =>
      have same := sameTables_touchBroker self np
      simp only
      split
      · split
        · exact leaves_deliver same _ _ _ _ _
        · split
          · exact leaves_done same _
          · split <;> exact leaves_done same _
      · exact leaves_done same _

theorem leaves_forward_dsock (self : DdBroker H) (msg : List Frame) :
    (sCbForwardDsock env self msg).Leaves (some self) := by
  unfold sCbForwardDsock
  split
  · simp only
    split
    · exact leaves_deliver (.refl self) _ _ _ _ _
    · split
      · exact leaves_done (.refl self) _
      · split
        · exact leaves_fault _ _
        · exact leaves_done (.refl self) _
  · exact leaves_done (.refl self) _

theorem leaves_ping (self : DdBroker H) (sockid cookie : Frame) :
    (sCbPing env self sockid cookie).Leaves (some self) := by
  unfold sCbPing
  split
  · exact leaves_fault _ _
  · exact leaves_done (sameTables_touch self _) _
  · split
    · exact leaves_fault _ _
    · split
      · exact leaves_fault _ _
      · exact leaves_done (sameTables_touchBroker self _) _
      · exact leaves_done (.refl self) _

theorem leaves_pub (self : DdBroker H) (sockid cookie : Frame) (msg : List Frame) :
    (sCbPub env self sockid cookie msg).Leaves (some self) := by
  unfold sCbPub
  simp only
  split
  · exact leaves_fault _ _
  · exact leaves_done (.refl self) _
  · next ln _ =>
    split
    · exact leaves_fault _ _
    · split
      · exact leaves_fault _ _
      · split
        · exact leaves_fault _ _
        · split
          · exact leaves_fault _ _
          · exact leaves_done (sameTables_touch self ln) _

omit [DecidableEq H] in
theorem leaves_addlcl (self : DdBroker H) (sockid : Frame) (msg : List Frame) :
    (sCbAddlcl env self sockid msg).Leaves (some self) := by
  unfold sCbAddlcl
  split
  · exact leaves_done (.refl self) _
  · split
    · exact leaves_done (.refl self) _
    · rintro self' sends ⟨⟩
      exact ⟨self, rfl, ⟨rfl, rfl, rfl, rfl, rfl, rfl, rfl, rfl, rfl⟩⟩

omit [DecidableEq H] in
theorem leaves_addbr (self : DdBroker H) (sockid : Frame) (msg : List Frame) :
    (sCbAddbr env self sockid msg).Leaves (some self) := by
  unfold sCbAddbr
  split
  · exact leaves_fault _ _
  · split
    · exact leaves_done (.refl self) _
    · rintro self' sends ⟨⟩
      exact ⟨self, rfl, ⟨rfl, rfl, rfl, rfl, rfl, rfl, rfl, rfl, rfl⟩⟩

omit [DecidableEq H] in
theorem leaves_pubRemotely (self : DdBroker H) (pubtopic name : CStr) (msg : List Frame) :
    (pubRemotely self pubtopic name msg).Leaves (some self) := by
  unfold pubRemotely
  split
  · exact leaves_fault _ _
  · exact leaves_done (.refl self) _
  · split
    · exact leaves_fault _ _
    · simp only
      split
      · exact leaves_done (.refl self) _
      · exact leaves_fault _ _

omit [DecidableEq H] in
theorem leaves_subN (self : DdBroker H) (msg : List Frame) :
    (sOnSubNMsg self msg).Leaves (some self) := by
  unfold sOnSubNMsg
  simp only
  split
  · exact leaves_done (.refl self) _
  · split
    · intro self' sends h
      obtain ⟨self₁, s₁, s₂, h₁, h₂, -⟩ := Outcome.andThen_eq_done.mp h
      cases h₂
      exact leaves_pubRemotely self _ _ _ _ _ h₁
    · exact leaves_fault _ _

omit [DecidableEq H] in
theorem leaves_subS (self : DdBroker H) (msg : List Frame) :
    (sOnSubSMsg self msg).Leaves (some self) := by
  unfold sOnSubSMsg
  simp only
  split
  · intro self' sends h
    obtain ⟨self₁, s₁, s₂, h₁, h₂, -⟩ := Outcome.andThen_eq_done.mp h
    have hself : self₁ = self' := by
      split at h₂
      · cases h₂
      · split at h₂
        · cases h₂
        · cases h₂
          rfl
    exact hself ▸ leaves_pubRemotely self _ _ _ _ _ h₁
  · exact leaves_fault _ _

/-! ### Commands that change the tables -/

/-- The timeout of a client has no part in its subscriptions. -/
theorem insertSubscription_touch (self : DdBroker H) (c : LocalClient) (sockid : Frame)
    (key : CStr) : insertSubscription env (self.touch c) sockid key =
      (insertSubscription env self sockid key).map fun p => (p.1.touch c, p.2) := by
  unfold insertSubscription
  simp only [DdBroker.touch]
  split
  · rfl
  · split <;> rfl
  · rfl

theorem removeSubscription_touch (self : DdBroker H) (c : LocalClient) (sockid : Frame)
    (key : CStr) : removeSubscription env (self.touch c) sockid key =
      (removeSubscription env self sockid key).map fun p => (p.1.touch c, p.2) := by
  unfold removeSubscription
  simp only [DdBroker.touch]
  split
  · rfl
  · rfl
  · cases unsubscribeAll sockid _ self.topicsTrie <;> rfl

theorem acceptedFor_eq_some {self : DdBroker H} {sockid cookie : Frame} {ln : LocalClient} :
    acceptedFor env self sockid cookie = some ln ↔
      hashtableHasLocalNode env self sockid cookie = some (some ln) := by
  rw [acceptedFor, Option.join_eq_some_iff]

theorem leaves_sub (self : DdBroker H) (sockid cookie : Frame) (msg : List Frame) :
    (sCbSub env self sockid cookie msg).Leaves
      ((routerRequest env self sockid .sub (cookie :: msg)).effect env self) := by
  unfold sCbSub
  simp only [routerRequest]
  split
  · exact leaves_fault _ _
  · next h =>
    simp only [acceptedFor, h, Option.join_some]
    exact leaves_done (.refl self) _
  · next ln h =>
    have hscope : (self.touch ln).scope = self.scope := rfl
    rw [acceptedFor_eq_some.mpr h, hscope]
    simp only
    cases subRequest self.scope ln msg with
    | none => exact leaves_fault _ _
    | some req =>
      obtain ⟨topic, scopestr, key⟩ := req
      simp only [Request.effect, addSubscription, insertSubscription_touch]
      cases insertSubscription env self sockid key with
      | none => exact leaves_fault _ _
      | some p =>
        have htrie : (p.1.touch ln).topicsTrie = p.1.topicsTrie := rfl
        simp only [Option.map_some, Option.bind_some, htrie]
        cases nnTrieSubscribe p.1.topicsTrie key.bytes sockid with
        | none => exact leaves_fault _ _
        | some q =>
          rintro self' sends ⟨⟩
          exact ⟨_, rfl, ⟨rfl, rfl, rfl, rfl, rfl, rfl, rfl, rfl, rfl⟩⟩

theorem leaves_unsub (self : DdBroker H) (sockid cookie : Frame) (msg : List Frame) :
    (sCbUnsub env self sockid cookie msg).Leaves
      ((routerRequest env self sockid .unsub (cookie :: msg)).effect env self) := by
  unfold sCbUnsub
  simp only [routerRequest]
  split
  · exact leaves_fault _ _
  · next h =>
    simp only [acceptedFor, h, Option.join_some]
    exact leaves_done (.refl self) _
  · next ln h =>
    have hscope : (self.touch ln).scope = self.scope := rfl
    rw [acceptedFor_eq_some.mpr h, hscope]
    simp only
    cases subRequest self.scope ln msg with
    | none => exact leaves_fault _ _
    | some req =>
      obtain ⟨topic, scopestr, key⟩ := req
      simp only [Request.effect, removeSubscription_touch]
      cases removeSubscription env self sockid key with
      | none => exact leaves_fault _ _
      | some p => exact leaves_done (sameTables_touch p.1 ln) _

theorem leaves_unreg (self : DdBroker H) (sockid cookie : Frame) (msg : List Frame) :
    (sCbUnregCli env self sockid cookie).Leaves
      ((routerRequest env self sockid .unreg (cookie :: msg)).effect env self) := by
  unfold sCbUnregCli
  simp only [routerRequest]
  split
  · exact leaves_fault _ _
  · next h =>
    simp only [acceptedFor, h, Option.join_some]
    exact leaves_done (.refl self) _
  · next ln h =>
    rw [acceptedFor_eq_some.mpr h]
    simp only [Request.effect, removeClient]
    cases removeSubscriptions env self sockid with
    | none => exact leaves_fault _ _
    | some p => exact leaves_done (.refl _) _

theorem leaves_register (self : DdBroker H) (sockid : Frame) (hash : CStr) (ten : DdTenant)
    (clientName : CStr) : (registerClient env self sockid ten clientName).Leaves
      ((Request.register sockid hash ten clientName).effect env self) := by
  unfold registerClient
  simp only [Request.effect]
  cases insertLocalClient env self sockid ten clientName with
  | none => exact leaves_fault _ _
  | some o =>
    cases o with
    | none => exact leaves_done (.refl self) _
    | some b => exact leaves_done (.refl b) _

theorem leaves_challok (self : DdBroker H) (sockid : Frame) (msg : List Frame) :
    (sCbChallok env self sockid msg).Leaves
      ((challokRequest self sockid msg).effect env self) := by
  rcases msg with _ | ⟨cook, _ | ⟨hash, _ | ⟨clientName, rest⟩⟩⟩
  · exact leaves_fault _ _
  · exact leaves_done (.refl self) _
  · exact leaves_done (.refl self) _
  · simp only [sCbChallok, challokRequest]
    by_cases hhash : CStr.ofBytes hash = self.keys.hash
    · simp only [if_pos hhash]
      cases hc : readCookie cook with
      | none => exact leaves_fault _ _
      | some cookie =>
        by_cases hcookie : self.keys.cookie = cookie
        · subst hcookie
          simp only [ne_eq, not_true_eq_false, if_false, if_true, Request.effect]
          cases hashtableHasLocalBroker env self sockid self.keys.cookie with
          | none => exact leaves_fault _ _
          | some b =>
            cases b with
            | none => exact leaves_done (.refl _) _
            | some np => exact leaves_done (.refl self) _
        · simp only [ne_eq, hcookie, not_false_eq_true, if_true, Option.some.injEq,
            Ne.symm hcookie, if_false]
          exact leaves_done (.refl self) _
    · simp only [if_neg hhash]
      cases self.keys.tenant (CStr.ofBytes hash) with
      | none => exact leaves_done (.refl self) _
      | some ten =>
        simp only
        cases hc : readCookie cook with
        | none => exact leaves_fault _ _
        | some cookie =>
          by_cases hcookie : ten.cookie = cookie
          · subst hcookie
            by_cases hname : CStr.ofBytes clientName = publicName
            · simp only [ne_eq, not_true_eq_false, if_false, hname, if_true, and_false]
              exact leaves_done (.refl self) _
            · simp only [ne_eq, not_true_eq_false, if_false, hname, not_false_eq_true, and_self,
                if_true]
              exact leaves_register self sockid (CStr.ofBytes hash) ten (CStr.ofBytes clientName)
          · simp only [ne_eq, hcookie, not_false_eq_true, if_true, Option.some.injEq,
              Ne.symm hcookie, false_and, if_false]
            exact leaves_done (.refl self) _

theorem fromBroker_eq {self : DdBroker H} {sockid cookieFrame : Frame} {cookie : Cookie}
    {b : Option LocalBroker} (hc : readCookie cookieFrame = some cookie)
    (hb : hashtableHasLocalBroker env self sockid cookie = some b) :
    fromBroker env self sockid cookieFrame = b.isSome := by
  rw [fromBroker, hc]
  simp only [hb, Option.join_some]

theorem fromBroker_eq_true {self : DdBroker H} {sockid cookieFrame : Frame} :
    fromBroker env self sockid cookieFrame ↔ ∃ cookie np, readCookie cookieFrame = some cookie ∧
      hashtableHasLocalBroker env self sockid cookie = some (some np) := by
  cases hc : readCookie cookieFrame with
  | none => simp [fromBroker, hc]
  | some cookie => simp [fromBroker, hc, Option.isSome_iff_exists, Option.join_eq_some_iff]

theorem leaves_adddcl (self : DdBroker H) (sockid cookie : Frame) (msg : List Frame) :
    (sCbAdddcl env self sockid cookie msg).Leaves
      ((routerRequest env self sockid .adddcl (cookie :: msg)).effect env self) := by
  unfold sCbAdddcl
  split
  · exact leaves_fault _ _
  · next c hc =>
    split
    · exact leaves_fault _ _
    · next hb =>
      have hfrom := fromBroker_eq hc hb
      rcases msg with _ | ⟨name, _ | ⟨distFrame, rest⟩⟩
      · exact leaves_done (.refl self) _
      · exact leaves_done (.refl self) _
      · simp only [routerRequest, hfrom, Option.isSome_none, Bool.false_eq_true, if_false]
        exact leaves_done (.refl self) _
    · next np hb =>
      have hfrom := fromBroker_eq hc hb
      rcases msg with _ | ⟨name, _ | ⟨distFrame, rest⟩⟩
      · exact leaves_fault _ _
      · exact leaves_fault _ _
      · simp only [routerRequest, hfrom, Option.isSome_some, if_true, zmsgPopstr, zmsgPop]
        by_cases hrev : (hashtableHasRevLocalNode env self (CStr.ofBytes name)).isSome
        · simp only [hrev, if_true, true_or]
          exact leaves_done (.refl self) _
        · by_cases hdist : (hashtableHasDistNode env self (CStr.ofBytes name)).isSome
          · simp only [hrev, hdist, if_true, or_true]
            exact leaves_done (.refl self) _
          · simp only [hrev, hdist, or_self]
            cases readU32 distFrame with
            | none => exact leaves_fault _ _
            | some dist => exact leaves_done (.refl _) _

theorem leaves_unregdcli (self : DdBroker H) (sockid cookie : Frame) (msg : List Frame) :
    (sCbUnregDistCli env self sockid cookie msg).Leaves
      ((routerRequest env self sockid .unregdcli (cookie :: msg)).effect env self) := by
  unfold sCbUnregDistCli
  split
  · exact leaves_fault _ _
  · next c hc =>
    split
    · exact leaves_fault _ _
    · next hb =>
      have hfrom := fromBroker_eq hc hb
      rcases msg with _ | ⟨name, rest⟩
      · exact leaves_done (.refl self) _
      · simp only [routerRequest, hfrom, Option.isSome_none, Bool.false_eq_true, if_false]
        exact leaves_done (.refl self) _
    · next np hb =>
      have hfrom := fromBroker_eq hc hb
      rcases msg with _ | ⟨name, rest⟩
      · exact leaves_fault _ _
      · simp only [routerRequest, hfrom, Option.isSome_some, if_true, zmsgPopstr, Request.effect]
        split <;> exact leaves_done (.refl _) _

theorem leaves_router (self : DdBroker H) (sockid : Frame) (cmd : Cmd) (msg : List Frame) :
    (onRouterCmd env self sockid cmd msg).Leaves
      ((routerRequest env self sockid cmd msg).effect env self) := by
  cases cmd with
  | challok => exact leaves_challok self sockid msg
  | addlcl =>
    have h := @leaves_addlcl _ env self sockid msg
    cases msg <;> exact h
  | addbr =>
    have h := @leaves_addbr _ env self sockid msg
    cases msg <;> exact h
  | send =>
    cases msg with
    | nil => exact leaves_done (.refl self) _
    | cons k msg => exact leaves_send self sockid k msg
  | forward =>
    cases msg with
    | nil => exact leaves_done (.refl self) _
    | cons k msg => exact leaves_forward_rsock self sockid k msg
  | ping =>
    cases msg with
    | nil => exact leaves_done (.refl self) _
    | cons k msg => exact leaves_ping self sockid k
  | pub =>
    cases msg with
    | nil => exact leaves_done (.refl self) _
    | cons k msg => exact leaves_pub self sockid k msg
  | sub =>
    cases msg with
    | nil => exact leaves_done (.refl self) _
    | cons k msg => exact leaves_sub self sockid k msg
  | unsub =>
    cases msg with
    | nil => exact leaves_done (.refl self) _
    | cons k msg => exact leaves_unsub self sockid k msg
  | unreg =>
    cases msg with
    | nil => exact leaves_done (.refl self) _
    | cons k msg => exact leaves_unreg self sockid k msg
  | adddcl =>
    cases msg with
    | nil => exact leaves_done (.refl self) _
    | cons k msg => exact leaves_adddcl self sockid k msg
  | unregdcli =>
    cases msg with
    | nil => exact leaves_done (.refl self) _
    | cons k msg => exact leaves_unregdcli self sockid k msg
  | unregbr | data | error | regok | pong | chall | subok =>
    cases msg <;> exact leaves_done (.refl self) _

/-! ### Messages from the higher broker and timers -/

theorem leaves_high_error (self : DdBroker H) (msg : List Frame) :
    (sCbHighError env self msg).Leaves ((dealerRequest env self .error msg).effect env self) := by
  rcases msg with _ | ⟨codeFrame, msg⟩
  · exact leaves_done (.refl self) _
  · simp only [sCbHighError, zmsgPop]
    cases hcode : readU32 codeFrame with
    | none => exact leaves_fault _ _
    | some code =>
      by_cases hnodst : code = ddErrorNodst
      · subst hnodst
        have hreq : (dealerRequest env self .error (codeFrame :: msg)).effect env self =
            some self := by
          cases msg with
          | nil => rfl
          | cons cliName rest =>
            rw [dealerRequest, hcode, if_neg (by decide)]
            rfl
        rw [hreq]
        simp only [if_true]
        split
        · exact leaves_fault _ _
        · split
          · exact leaves_fault _ _
          · split
            · exact leaves_fault _ _
            · exact leaves_done (.refl self) _
          · split
            · exact leaves_done (.refl self) _
            · exact leaves_fault _ _
            · exact leaves_done (.refl self) _
      · by_cases hfail : code = ddErrorRegfail
        · subst hfail
          simp only [if_neg hnodst, if_true]
          cases msg with
          | nil => exact leaves_fault _ _
          | cons cliName rest =>
            simp only [zmsgPopstr, dealerRequest, hcode, if_true]
            cases hrev : hashtableHasRevLocalNode env self (CStr.ofBytes cliName) with
            | some ln =>
              simp only [Request.effect, removeClient]
              cases removeSubscriptions env self ln.sockid with
              | none => exact leaves_fault _ _
              | some p => exact leaves_done (.refl _) _
            | none =>
              simp only [Request.effect]
              cases hashtableHasDistNode env self (CStr.ofBytes cliName) with
              | none => exact leaves_done (.refl _) _
              | some dn => exact leaves_done (.refl _) _
        · simp only [if_neg hnodst, if_neg hfail]
          have hreq : (dealerRequest env self .error (codeFrame :: msg)).effect env self =
              some self := by
            cases msg with
            | nil => rfl
            | cons cliName rest =>
              rw [dealerRequest, hcode, if_neg (by simpa using hfail)]
              rfl
          rw [hreq]
          exact leaves_done (.refl self) _

theorem leaves_dealer (self : DdBroker H) (cmd : Cmd) (msg : List Frame) :
    (onDealerCmd env self cmd msg).Leaves ((dealerRequest env self cmd msg).effect env self) := by
  cases cmd with
  | error => exact leaves_high_error self msg
  | forward => exact leaves_forward_dsock self msg
  | regok =>
    rintro self' sends ⟨⟩
    exact ⟨self, rfl, ⟨rfl, rfl, rfl, rfl, rfl, rfl, rfl, rfl, rfl⟩⟩
  | chall =>
    show (sCbChall env self msg).Leaves (some self)
    unfold sCbChall
    split
    · exact leaves_fault _ _
    · simp only
      split
      · exact leaves_fault _ _
      · split
        · exact leaves_fault _ _
        · rintro self' sends ⟨⟩
          exact ⟨self, rfl, ⟨rfl, rfl, rfl, rfl, rfl, rfl, rfl, rfl, rfl⟩⟩
  | send | ping | addlcl | adddcl | addbr | unreg | unregdcli | unregbr | data | pong | challok
  | pub | sub | unsub | subok => exact leaves_done (.refl self) _

/-- The counter of the heartbeats has no part in what a message from the higher broker asks for. -/
theorem dealer_effect_timeout (self : DdBroker H) (cmd : Cmd) (msg : List Frame) :
    (dealerRequest env { self with timeout := 0 } cmd msg).effect env { self with timeout := 0 } =
      ((dealerRequest env self cmd msg).effect env self).map fun b => { b with timeout := 0 } := by
  have hrev : ∀ name, hashtableHasRevLocalNode env { self with timeout := 0 } name =
      hashtableHasRevLocalNode env self name := fun _ => rfl
  unfold dealerRequest
  split
  · next codeFrame cliName rest =>
    split
    · rw [hrev]
      cases hashtableHasRevLocalNode env self (CStr.ofBytes cliName) with
      | none =>
        have hdist : hashtableHasDistNode env { self with timeout := 0 } (CStr.ofBytes cliName) =
          hashtableHasDistNode env self (CStr.ofBytes cliName) := rfl
        simp only [Request.effect, Option.map_some, hdist]
        cases hashtableHasDistNode env self (CStr.ofBytes cliName) <;> rfl
      | some ln =>
        simp only [Request.effect, removeClient, removeSubscriptions]
        split
        · rfl
        · rfl
        · cases unsubscribeAll ln.sockid _ self.topicsTrie <;> rfl
    · rfl
  · rfl

/-- **A step does to the tables what its request says.** -/
theorem step_effect {self self' : DdBroker H} {e : Event} {sends : List Send}
    (h : step env self e = .done self' sends) :
    ∃ self₁, (request env self e).effect env self = some self₁ ∧ SameTables self₁ self' := by
  suffices hl : (step env self e).Leaves ((request env self e).effect env self) from hl _ _ h
  cases e with
  | router msg =>
    rcases sOnRouterMsg_eq env self msg with ⟨s, cmd, rest, hm, heq⟩ | ⟨hm, heq | ⟨sends, heq, -⟩⟩
    · simp only [step, request, hm, heq]
      exact leaves_router self s cmd rest
    · simp only [step, heq]
      exact leaves_fault _ _
    · simp only [step, request, hm, heq]
      exact leaves_done (.refl self) _
  | dealer msg =>
    rcases sOnDealerMsg_eq env self msg with ⟨cmd, rest, hm, heq⟩ | ⟨hm, heq | heq⟩
    · simp only [step, request, hm, heq]
      intro self' sends h'
      obtain ⟨self₁, h₁, h₂⟩ := leaves_dealer { self with timeout := 0 } cmd rest self' sends h'
      rw [dealer_effect_timeout, Option.map_eq_some_iff] at h₁
      obtain ⟨self₂, h₃, rfl⟩ := h₁
      exact ⟨self₂, h₃, h₂.keys, h₂.scope, h₂.brokerScope, h₂.topicsTrie, h₂.lclCliHt,
        h₂.revLclCliHt, h₂.distCliHt, h₂.lclBrHt, h₂.subscribeHt⟩
    · simp only [step, heq]
      exact leaves_fault _ _
    · simp only [step, request, hm, heq]
      rintro self' sends ⟨⟩
      exact ⟨self, rfl, ⟨rfl, rfl, rfl, rfl, rfl, rfl, rfl, rfl, rfl⟩⟩
  | subN msg => exact leaves_subN self msg
  | subS msg => exact leaves_subS self msg
  | pubN msg =>
    show (sOnPubNMsg self msg).Leaves (some self)
    unfold sOnPubNMsg
    split
    · exact leaves_fault _ _
    · split
      · exact leaves_fault _ _
      · exact leaves_done (.refl self) _
  | pubS msg =>
    show (sOnPubSMsg self msg).Leaves (some self)
    unfold sOnPubSMsg
    split
    · exact leaves_fault _ _
    · split
      · exact leaves_fault _ _
      · exact leaves_done (.refl self) _
  | register =>
    show (sRegister self).Leaves (some self)
    unfold sRegister
    split <;> exact leaves_done (.refl self) _
  | heartbeat =>
    show (sHeartbeat self).Leaves (some self)
    unfold sHeartbeat
    simp only
    rintro self' sends ⟨⟩
    split <;> exact ⟨self, rfl, ⟨rfl, rfl, rfl, rfl, rfl, rfl, rfl, rfl, rfl⟩⟩
  | checkCliTimeout =>
    intro self' sends h'
    exact ⟨self', by rw [request, Request.effect, show sCheckCliTimeout env self = _ from h']; rfl,
      .refl self'⟩
  | checkBrTimeout =>
    intro self' sends h'
    exact ⟨self', by rw [request, Request.effect, show sCheckBrTimeout self = _ from h']; rfl,
      .refl self'⟩

end DoubleDecker
