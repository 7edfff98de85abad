import DoubleDecker.Broker.Registry
import DoubleDecker.Library.Relabel

/-!
# Broker/Exact — a broker without a hash

    run of the broker with XXH32  ◂──relabel──  run of the broker with full keys

`Env.exact` files every node under its whole key.  The strings that are hashed are put together from
socket ids, cookies and names (`Vocabulary`); as long as no two of them have the same hash, every
operation of `htable.c` does to the tables of hashes what it does to the tables of keys.
-/

namespace DoubleDecker

open Trie

variable {H : Type} [DecidableEq H] {env : Env H}

/-! ## The broker with full keys -/

/-- The tables keyed by what is hashed. -/
def Env.exact (env : Env H) : Env (List UInt8) where
  xxh32 := id
  boxEasyAfternm := env.boxEasyAfternm
  boxOpenEasyAfternm := env.boxOpenEasyAfternm
  nonceIncrement := env.nonceIncrement

/-- The broker with the hashes in place of the keys. -/
def DdBroker.relabel (hash : List UInt8 → H) (self : DdBroker (List UInt8)) : DdBroker H where
  state := self.state
  timeout := self.timeout
  loop := self.loop
  regLoop := self.regLoop
  heartbeatLoop := self.heartbeatLoop
  dsock := self.dsock
  keys := self.keys
  nonce := self.nonce
  topicsTrie := self.topicsTrie
  brokerId := self.brokerId
  scope := self.scope
  brokerScope := self.brokerScope
  pubSEndpoint := self.pubSEndpoint
  subSEndpoint := self.subSEndpoint
  connectedN := self.connectedN
  lclCliHt := self.lclCliHt.relabel hash
  revLclCliHt := self.revLclCliHt.relabel hash
  cliTimeout := self.cliTimeout
  distCliHt := self.distCliHt.relabel hash
  lclBrHt := self.lclBrHt.relabel hash
  brTimeout := self.brTimeout
  subscribeHt := self.subscribeHt.relabel hash

section

variable {H : Type} {env : Env H} (hash : List UInt8 → H) (self : DdBroker (List UInt8))

@[simp] theorem Env.exact_xxh32 (k : List UInt8) : env.exact.xxh32 k = k := rfl

@[simp] theorem Env.exact_boxOpenEasyAfternm :
    env.exact.boxOpenEasyAfternm = env.boxOpenEasyAfternm := rfl

@[simp] theorem connectedN_relabel : (self.relabel hash).connectedN = self.connectedN := rfl

@[simp] theorem brokerId_relabel : (self.relabel hash).brokerId = self.brokerId := rfl

@[simp] theorem state_relabel : (self.relabel hash).state = self.state := rfl

@[simp] theorem keys_relabel : (self.relabel hash).keys = self.keys := rfl

@[simp] theorem scope_relabel : (self.relabel hash).scope = self.scope := rfl

@[simp] theorem topicsTrie_relabel : (self.relabel hash).topicsTrie = self.topicsTrie := rfl

@[simp] theorem touch_relabel (np : LocalClient) :
    (self.relabel hash).touch np = (self.touch np).relabel hash := rfl

@[simp] theorem touchBroker_relabel (np : LocalBroker) :
    (self.relabel hash).touchBroker np = (self.touchBroker np).relabel hash := rfl

end

/-- The same outcome, with the hashes in place of the keys. -/
def Outcome.relabel (hash : List UInt8 → H) : Outcome (List UInt8) → Outcome H
  | .done self sends => .done (self.relabel hash) sends
  | .fault sends => .fault sends

/-! ## What is hashed -/

/-- What the keys of the tables are put together from: socket ids, socket ids with a cookie, and
names. -/
structure Vocabulary where
  sockids : List Frame := []
  accounts : List (Frame × Frame) := []
  names : List CStr := []

namespace Vocabulary

/-- The keys, the names as the two tables have them. -/
def strings (V : Vocabulary) : List (List UInt8) :=
  V.sockids ++ V.accounts.map (fun a => a.1 ++ a.2) ++
    V.names.map CStr.bytes ++ V.names.map prenameKey

/-- The keys as a set. -/
def keys (V : Vocabulary) : Set (List UInt8) := {k | k ∈ V.strings}

/-- A part of a vocabulary. -/
structure Within (V W : Vocabulary) : Prop where
  sockids : V.sockids ⊆ W.sockids
  accounts : V.accounts ⊆ W.accounts
  names : V.names ⊆ W.names

variable {V : Vocabulary}

theorem sockid_mem {sockid : Frame} (h : sockid ∈ V.sockids) : sockid ∈ V.keys :=
  List.mem_append_left _ (List.mem_append_left _ (List.mem_append_left _ h))

theorem account_mem {sockid cookie : Frame} (h : (sockid, cookie) ∈ V.accounts) :
    sockid ++ cookie ∈ V.keys :=
  List.mem_append_left _ (List.mem_append_left _ (List.mem_append_right _
    (List.mem_map_of_mem (f := fun a : Frame × Frame => a.1 ++ a.2) h)))

theorem name_mem {name : CStr} (h : name ∈ V.names) : name.bytes ∈ V.keys :=
  List.mem_append_left _ (List.mem_append_right _ (List.mem_map_of_mem h))

theorem prename_mem {name : CStr} (h : name ∈ V.names) : prenameKey name ∈ V.keys :=
  List.mem_append_right _ (List.mem_map_of_mem h)

end Vocabulary

/-- What a command of the router looks up or enters.  Brokers are looked up by the first eight bytes
of a cookie, and a destination is that of the command or one below a tenant. -/
def Cmd.vocabulary (k : DdBrokerKeys) (source : Frame) : Cmd → List Frame → Vocabulary
  | .send, cookie :: msg =>
    { accounts := [(source, cookie)]
      names := (msg.take 1).flatMap fun f =>
        CStr.ofBytes f :: k.tenantkeys.map fun t => joined 255 t.2.name (CStr.ofBytes f) }
  | .pub, cookie :: _ => { accounts := [(source, cookie)] }
  | .sub, cookie :: _ | .unsub, cookie :: _ | .unreg, cookie :: _ =>
    { sockids := [source], accounts := [(source, cookie)] }
  | .ping, cookie :: _ => { accounts := [(source, cookie), (source, cookie.take 8)] }
  | .forward, cookie :: msg =>
    { accounts := [(source, cookie.take 8)], names := ((msg.drop 1).take 1).map CStr.ofBytes }
  | .adddcl, cookie :: msg | .unregdcli, cookie :: msg =>
    { accounts := [(source, cookie.take 8)], names := (msg.take 1).map CStr.ofBytes }
  | .challok, cook :: hash :: clientName :: _ =>
    if CStr.ofBytes hash = k.hash then { accounts := [(source, cook.take 8)] }
    else
      match k.tenant (CStr.ofBytes hash) with
      | none => {}
      | some ten =>
        { sockids := [source], accounts := [(source, ten.cookie.1)]
          names := [joined 255 ten.name (CStr.ofBytes clientName)] }
  | _, _ => {}

/-- What a command of the higher broker looks up. -/
def Cmd.dealerVocabulary : Cmd → List Frame → Vocabulary
  | .forward, msg => { names := ((msg.drop 1).take 1).map CStr.ofBytes }
  | .error, codeFrame :: msg =>
    if readU32 codeFrame = some ddErrorNodst then
      { names := ((msg.drop 1).take 1).map CStr.ofBytes }
    else if readU32 codeFrame = some ddErrorRegfail then
      { names := (msg.take 1).map CStr.ofBytes }
    else {}
  | _, _ => {}

/-- What an event may have hashed, but for what the tables have. -/
def Event.vocabulary (k : DdBrokerKeys) : Event → Vocabulary
  | .router msg =>
    match routerCmd msg with
    | some (source, cmd, rest) => cmd.vocabulary k source rest
    | none => {}
  | .dealer msg =>
    match dealerCmd msg with
    | some (cmd, rest) => cmd.dealerVocabulary rest
    | none => {}
  | _ => {}

/-- What is hashed for an event is part of the vocabulary. -/
def Event.Within (k : DdBrokerKeys) (V : Vocabulary) (e : Event) : Prop := (e.vocabulary k).Within V

/-- The keys of the tables and of their clients are part of the vocabulary. -/
structure DdBroker.Within (b : DdBroker (List UInt8)) (V : Vocabulary) : Prop where
  lcl : b.lclCliHt.Within V.keys
  rev : b.revLclCliHt.Within V.keys
  dist : b.distCliHt.Within V.keys
  br : b.lclBrHt.Within V.keys
  sub : b.subscribeHt.Within V.keys
  sockid : ∀ c ∈ b.lclCliHt.nodes, c.sockid ∈ V.sockids
  account : ∀ c ∈ b.lclCliHt.nodes, (c.sockid, c.cookie.1) ∈ V.accounts
  name : ∀ c ∈ b.lclCliHt.nodes, c.prefixName ∈ V.names

/-! ## The operations on the tables -/

section

variable {V : Vocabulary} (hinj : Set.InjOn env.xxh32 V.keys) {self : DdBroker (List UInt8)}
  (hself : self.Within V)

include hinj hself

theorem hasLocal_relabel {sockid cookie : Frame} (ha : (sockid, cookie) ∈ V.accounts) :
    hashtableHasLocalNode env (self.relabel env.xxh32) sockid cookie =
      hashtableHasLocalNode env.exact self sockid cookie :=
  Lfht.lookup_relabel hinj hself.lcl (Vocabulary.account_mem ha) _

theorem hasRev_relabel {name : CStr} (hn : name ∈ V.names) :
    hashtableHasRevLocalNode env (self.relabel env.xxh32) name =
      hashtableHasRevLocalNode env.exact self name :=
  congrArg Option.join (Lfht.lookup_relabel hinj hself.rev (Vocabulary.prename_mem hn) _)

theorem hasDist_relabel {name : CStr} (hn : name ∈ V.names) :
    hashtableHasDistNode env (self.relabel env.xxh32) name =
      hashtableHasDistNode env.exact self name :=
  congrArg Option.join (Lfht.lookup_relabel hinj hself.dist (Vocabulary.name_mem hn) _)

theorem hasBroker_relabel {sockid : Frame} {cookie : Cookie}
    (ha : (sockid, cookie.1) ∈ V.accounts) :
    hashtableHasLocalBroker env (self.relabel env.xxh32) sockid cookie =
      hashtableHasLocalBroker env.exact self sockid cookie :=
  Lfht.lookup_relabel hinj hself.br (Vocabulary.account_mem ha) _

theorem hasSubscribe_relabel {sockid : Frame} (hs : sockid ∈ V.sockids) :
    (self.relabel env.xxh32).subscribeHt.lookup (env.xxh32 sockid) (matchSubscribeNode sockid) =
      self.subscribeHt.lookup sockid (matchSubscribeNode sockid) :=
  Lfht.lookup_relabel hinj hself.sub (Vocabulary.sockid_mem hs) _

/-- Without the node of a socket id. -/
theorem delSubscribe_relabel {sockid : Frame} (hs : sockid ∈ V.sockids) (root : Option Node) :
    { self.relabel env.xxh32 with
      topicsTrie := root
      subscribeHt := (self.relabel env.xxh32).subscribeHt.del (env.xxh32 sockid)
        (matchSubscribeNode sockid) } =
    DdBroker.relabel env.xxh32 { self with
      topicsTrie := root
      subscribeHt := self.subscribeHt.del sockid (matchSubscribeNode sockid) } := by
  have hdel := Lfht.del_relabel hinj hself.sub (Vocabulary.sockid_mem hs)
    (matchSubscribeNode sockid)
  simp only [DdBroker.relabel, hdel]

theorem removeSubscriptions_relabel {sockid : Frame} (hs : sockid ∈ V.sockids) :
    removeSubscriptions env (self.relabel env.xxh32) sockid =
      (removeSubscriptions env.exact self sockid).map fun p => (p.1.relabel env.xxh32, p.2) := by
  simp only [removeSubscriptions, hasSubscribe_relabel hinj hself hs, Env.exact_xxh32]
  cases self.subscribeHt.lookup sockid (matchSubscribeNode sockid) with
  | none => rfl
  | some o =>
    cases o with
    | none => rfl
    | some sn =>
      simp only [delSubscribe_relabel hinj hself hs, topicsTrie_relabel]
      cases unsubscribeAll sockid sn.topics self.topicsTrie <;> rfl

theorem removeSubscription_relabel {sockid : Frame} (hs : sockid ∈ V.sockids) (topic : CStr) :
    removeSubscription env (self.relabel env.xxh32) sockid topic =
      (removeSubscription env.exact self sockid topic).map
        fun p => (p.1.relabel env.xxh32, p.2) := by
  simp only [removeSubscription, hasSubscribe_relabel hinj hself hs, Env.exact_xxh32]
  cases self.subscribeHt.lookup sockid (matchSubscribeNode sockid) with
  | none => rfl
  | some o =>
    cases o with
    | none => rfl
    | some sn =>
      simp only [delSubscribe_relabel hinj hself hs, topicsTrie_relabel]
      cases unsubscribeAll sockid (sn.topics.filter (· = topic)) self.topicsTrie <;> rfl

theorem insertSubscription_relabel {sockid : Frame} (hs : sockid ∈ V.sockids) (topic : CStr) :
    insertSubscription env (self.relabel env.xxh32) sockid topic =
      (insertSubscription env.exact self sockid topic).map
        fun p => (p.1.relabel env.xxh32, p.2) := by
  have hmodify := Lfht.modify_relabel hinj hself.sub (Vocabulary.sockid_mem hs)
    (matchSubscribeNode sockid) fun sn => { sn with topics := sn.topics ++ [topic] }
  have hadd (a : SubscribeNode) : (self.subscribeHt.add sockid a).relabel env.xxh32 =
      (self.subscribeHt.relabel env.xxh32).add (env.xxh32 sockid) a := Lfht.relabel_add a
  simp only [insertSubscription, hasSubscribe_relabel hinj hself hs, Env.exact_xxh32]
  cases self.subscribeHt.lookup sockid (matchSubscribeNode sockid) with
  | none => rfl
  | some o =>
    cases o with
    | none =>
      simp only [DdBroker.relabel, Option.map_some, hadd]
    | some sn =>
      by_cases h : zlistContainsStr sn.topics topic = true
      · simp only [if_pos h]
        rfl
      · simp only [if_neg h, DdBroker.relabel, Option.map_some, hmodify]

theorem insertLocalClient_relabel {sockid : Frame} {ten : DdTenant} {clientName : CStr}
    (ha : (sockid, ten.cookie.1) ∈ V.accounts) (hn : joined 255 ten.name clientName ∈ V.names) :
    insertLocalClient env (self.relabel env.xxh32) sockid ten clientName =
      (insertLocalClient env.exact self sockid ten clientName).map
        (Option.map (DdBroker.relabel env.xxh32)) := by
  simp only [insertLocalClient, hasDist_relabel hinj hself hn, hasLocal_relabel hinj hself ha,
    hasRev_relabel hinj hself hn]
  split_ifs
  · rfl
  · rfl
  · cases hashtableHasLocalNode env.exact self sockid ten.cookie.1 with
    | none => rfl
    | some o => cases o <;> rfl
  · cases hashtableHasLocalNode env.exact self sockid ten.cookie.1 with
    | none => rfl
    | some o =>
      cases o with
      | none =>
        simp only [Option.map_some, DdBroker.relabel, Lfht.relabel_add, Env.exact_xxh32]
        rfl
      | some c => rfl

theorem unlinkLocal_relabel {sockid : Frame} {cookie : Cookie}
    (ha : (sockid, cookie.1) ∈ V.accounts) :
    hashtableUnlinkLocalNode env (self.relabel env.xxh32) sockid cookie =
      (hashtableUnlinkLocalNode env.exact self sockid cookie).relabel env.xxh32 := by
  have hdel := Lfht.del_relabel hinj hself.lcl (Vocabulary.account_mem ha)
    (matchLclNodeSockid sockid)
  simp only [hashtableUnlinkLocalNode, DdBroker.relabel, hdel, Env.exact_xxh32]

theorem unlinkRev_relabel {name : CStr} (hn : name ∈ V.names) :
    hashtableUnlinkRevLocalNode env (self.relabel env.xxh32) name =
      (hashtableUnlinkRevLocalNode env.exact self name).relabel env.xxh32 := by
  have hdel := Lfht.del_relabel hinj hself.rev (Vocabulary.prename_mem hn)
    (matchLclNodePrename name)
  simp only [hashtableUnlinkRevLocalNode, DdBroker.relabel, hdel, Env.exact_xxh32]

theorem removeDist_relabel {name : CStr} (hn : name ∈ V.names) :
    hashtableRemoveDistNode env (self.relabel env.xxh32) name =
      (hashtableRemoveDistNode env.exact self name).relabel env.xxh32 := by
  have hdel := Lfht.del_relabel hinj hself.dist (Vocabulary.name_mem hn) (matchDistNode name)
  simp only [hashtableRemoveDistNode, DdBroker.relabel, hdel, Env.exact_xxh32]

end

omit [DecidableEq H] in
theorem insertDist_relabel (self : DdBroker (List UInt8)) (name : CStr) (sockid : Frame)
    (dist : UInt32) : hashtableInsertDistNode env (self.relabel env.xxh32) name sockid dist =
      (hashtableInsertDistNode env.exact self name sockid dist).relabel env.xxh32 := by
  simp only [hashtableInsertDistNode, DdBroker.relabel, Lfht.relabel_add, Env.exact_xxh32]

omit [DecidableEq H] in
theorem insertBroker_relabel (self : DdBroker (List UInt8)) (sockid : Frame) (cookie : Cookie) :
    hashtableInsertLocalBroker env (self.relabel env.xxh32) sockid cookie =
      (hashtableInsertLocalBroker env.exact self sockid cookie).relabel env.xxh32 := by
  simp only [hashtableInsertLocalBroker, DdBroker.touchBroker, DdBroker.relabel, Lfht.relabel_add,
    Env.exact_xxh32]

/-! ## What the operations keep -/

namespace DdBroker.Within

variable {V : Vocabulary} {b b' : DdBroker (List UInt8)}

theorem sameTables (hb : b.Within V) (h : SameTables b b') : b'.Within V := by
  obtain ⟨-, -, -, -, hlcl, hrev, hdist, hbr, hsub⟩ := h
  obtain ⟨h₁, h₂, h₃, h₄, h₅, h₆, h₇, h₈⟩ := hb
  constructor <;> simp only [hlcl, hrev, hdist, hbr, hsub] <;> assumption

variable (env) in
omit [DecidableEq H] in
theorem delSubscribe (hb : b.Within V) (root : Option Node) (sockid : Frame) :
    DdBroker.Within { b with
      topicsTrie := root
      subscribeHt := b.subscribeHt.del (env.exact.xxh32 sockid) (matchSubscribeNode sockid) } V :=
  { hb with sub := hb.sub.del _ _ }

omit [DecidableEq H] in
theorem removeSubscriptions (hb : b.Within V) {sockid : Frame} {n : ℕ}
    (h : DoubleDecker.removeSubscriptions env.exact b sockid = some (b', n)) : b'.Within V := by
  obtain rfl | ⟨root, rfl⟩ := removeSubscriptions_eq h
  · exact hb
  · exact hb.delSubscribe env root sockid

variable (env) in
omit [DecidableEq H] in
theorem unlinkLocal (hb : b.Within V) (sockid : Frame) (cookie : Cookie) :
    (hashtableUnlinkLocalNode env.exact b sockid cookie).Within V :=
  have hmem {c : LocalClient}
      (hc : c ∈ (b.lclCliHt.del (env.exact.xxh32 (sockid ++ cookie.1))
        (matchLclNodeSockid sockid)).nodes) : c ∈ b.lclCliHt.nodes :=
    (List.Sublist.map Prod.snd List.eraseP_sublist).subset hc
  { hb with
    lcl := hb.lcl.del _ _
    sockid := fun c hc => hb.sockid c (hmem hc)
    account := fun c hc => hb.account c (hmem hc)
    name := fun c hc => hb.name c (hmem hc) }

variable (env) in
omit [DecidableEq H] in
theorem unlinkRev (hb : b.Within V) (name : CStr) :
    (hashtableUnlinkRevLocalNode env.exact b name).Within V :=
  { hb with rev := hb.rev.del _ _ }

omit [DecidableEq H] in
theorem removeClient (hb : b.Within V) {sockid : Frame} {c : LocalClient}
    (h : DoubleDecker.removeClient env.exact b sockid c = some b') : b'.Within V := by
  obtain ⟨⟨b₁, n⟩, hb₁, rfl⟩ := Option.map_eq_some_iff.mp h
  exact ((hb.removeSubscriptions hb₁).unlinkLocal env _ _).unlinkRev env _

end DdBroker.Within

end DoubleDecker
