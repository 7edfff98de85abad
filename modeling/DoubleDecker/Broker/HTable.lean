import DoubleDecker.Broker.State

/-!
# Broker/HTable — the tables of a broker

The functions of `htable.c`.  A lookup by socket id compares the bytes of the key it is given with
`memcmp`, so a key longer than the stored socket id is read past the end of the stored one; the
lookup is then `none`.
-/

namespace DoubleDecker

open Trie

variable {H : Type} [DecidableEq H] (env : Env H)

/-! ## Match functions -/

/-- `memcmp(stored, key, |key|) == 0`. -/
def memcmpKey (stored key : Frame) : Option Bool :=
  if key.length ≤ stored.length then some (key.isPrefixOf stored)
  else if stored.isPrefixOf key then none
  else some false

def matchLclNodePrename (key : CStr) (node : LocalClient) : Option Bool :=
  some (node.prefixName.startsWith key)

def matchLclNodeSockid (key : Frame) (node : LocalClient) : Option Bool :=
  memcmpKey node.sockid key

def matchLclBroker (key : Frame) (node : LocalBroker) : Option Bool :=
  memcmpKey node.sockid key

def matchDistNode (key : CStr) (node : DistClient) : Option Bool :=
  some (node.name.startsWith key)

def matchSubscribeNode (key : Frame) (node : SubscribeNode) : Option Bool :=
  memcmpKey node.sockid key

/-- What a name is hashed as in `rev_lcl_cli_ht`: its bytes and the terminating `NUL`. -/
def prenameKey (name : CStr) : List UInt8 := name.bytes ++ [0]

/-! ## Lookups -/

def hashtableHasDistNode (self : DdBroker H) (prefixName : CStr) : Option DistClient :=
  (self.distCliHt.lookup (env.xxh32 prefixName.bytes) (matchDistNode prefixName)).join

def hashtableHasRevLocalNode (self : DdBroker H) (prefixName : CStr) : Option LocalClient :=
  (self.revLclCliHt.lookup (env.xxh32 (prenameKey prefixName))
    (matchLclNodePrename prefixName)).join

/-- The lookup by socket id and cookie frame.  The callers that ask for it reset the timeout of the
client found (`DdBroker.touch`). -/
def hashtableHasLocalNode (self : DdBroker H) (sockid cookie : Frame) :
    Option (Option LocalClient) :=
  self.lclCliHt.lookup (env.xxh32 (sockid ++ cookie)) (matchLclNodeSockid sockid)

def hashtableHasLocalBroker (self : DdBroker H) (sockid : Frame) (cookie : Cookie) :
    Option (Option LocalBroker) :=
  self.lclBrHt.lookup (env.xxh32 (sockid ++ cookie.1)) (matchLclBroker sockid)

omit [DecidableEq H] in
/-- `np->timeout = 0` of a local client. -/
def DdBroker.touch (self : DdBroker H) (np : LocalClient) : DdBroker H :=
  { self with cliTimeout := fun c => if c = np then 0 else self.cliTimeout c }

omit [DecidableEq H] in
/-- `np->timeout = 0` of a local broker. -/
def DdBroker.touchBroker (self : DdBroker H) (np : LocalBroker) : DdBroker H :=
  { self with brTimeout := fun b => if b = np then 0 else self.brTimeout b }

/-! ## Local clients -/

/-- `insert_local_client`: `some none` is the return value -1.  The hash is taken over as many bytes
as the full name has, also when the buffer holds less. -/
def insertLocalClient (self : DdBroker H) (sockid : Frame) (ten : DdTenant) (clientName : CStr) :
    Option (Option (DdBroker H)) :=
  let prefixName := joined 255 ten.name clientName
  let prelen := (ten.name ++ dotStr ++ clientName).length
  if 255 < prelen then none
  else if (hashtableHasDistNode env self prefixName).isSome then some none
  else
    match hashtableHasLocalNode env self sockid ten.cookie.1 with
    | none => none
    | some (some _) => some none
    | some none =>
      if (hashtableHasRevLocalNode env self prefixName).isSome then some none
      else
        let np : LocalClient :=
          { name := clientName, prefixName := prefixName, tenant := ten.name
            cookie := ten.cookie, sockid := sockid }
        some (some { self.touch np with
          lclCliHt := self.lclCliHt.add (env.xxh32 (sockid ++ ten.cookie.1)) np
          revLclCliHt := self.revLclCliHt.add (env.xxh32 (prenameKey prefixName)) np })

def hashtableUnlinkLocalNode (self : DdBroker H) (sockid : Frame) (cookie : Cookie) : DdBroker H :=
  { self with
    lclCliHt := self.lclCliHt.del (env.xxh32 (sockid ++ cookie.1)) (matchLclNodeSockid sockid) }

def hashtableUnlinkRevLocalNode (self : DdBroker H) (prefixName : CStr) : DdBroker H :=
  { self with
    revLclCliHt := self.revLclCliHt.del (env.xxh32 (prenameKey prefixName))
      (matchLclNodePrename prefixName) }

/-! ## Distant clients and local brokers -/

def hashtableInsertDistNode (self : DdBroker H) (prefixName : CStr) (sockid : Frame)
    (dist : UInt32) : DdBroker H :=
  { self with
    distCliHt := self.distCliHt.add (env.xxh32 prefixName.bytes)
      { name := prefixName, broker := sockid, distance := dist } }

def hashtableRemoveDistNode (self : DdBroker H) (prefixName : CStr) : DdBroker H :=
  { self with
    distCliHt := self.distCliHt.del (env.xxh32 prefixName.bytes) (matchDistNode prefixName) }

def hashtableInsertLocalBroker (self : DdBroker H) (sockid : Frame) (cookie : Cookie) :
    DdBroker H :=
  let mp : LocalBroker := { sockid := sockid, cookie := cookie }
  { self.touchBroker mp with
    lclBrHt := self.lclBrHt.add (env.xxh32 (sockid ++ cookie.1)) mp }

/-! ## Subscriptions -/

/-- Whether the list of topics has the topic (`zlist_contains_str`). -/
def zlistContainsStr (list : List CStr) (string : CStr) : Bool := decide (string ∈ list)

/-- The trie after the topics were unsubscribed one by one. -/
def unsubscribeAll (sockid : Frame) : List CStr → Option Node → Option (Option Node)
  | [], root => some root
  | topic :: topics, root => do
    let (root, _) ← nnTrieUnsubscribe root topic.bytes sockid
    unsubscribeAll sockid topics root

/-- `remove_subscriptions`, and the number of topics. -/
def removeSubscriptions (self : DdBroker H) (sockid : Frame) : Option (DdBroker H × Nat) :=
  match self.subscribeHt.lookup (env.xxh32 sockid) (matchSubscribeNode sockid) with
  | none => none
  | some none => some (self, 0)
  | some (some sn) => do
    let root ← unsubscribeAll sockid sn.topics self.topicsTrie
    return ({ self with
      topicsTrie := root
      subscribeHt := self.subscribeHt.del (env.xxh32 sockid) (matchSubscribeNode sockid) },
      sn.topics.length)

/-- `remove_subscription`: it takes the topic from the trie when the node lists it, and then
deletes the node with all its topics. -/
def removeSubscription (self : DdBroker H) (sockid : Frame) (topic : CStr) :
    Option (DdBroker H × Nat) :=
  match self.subscribeHt.lookup (env.xxh32 sockid) (matchSubscribeNode sockid) with
  | none => none
  | some none => some (self, 0)
  | some (some sn) => do
    let root ← unsubscribeAll sockid (sn.topics.filter (· = topic)) self.topicsTrie
    return ({ self with
      topicsTrie := root
      subscribeHt := self.subscribeHt.del (env.xxh32 sockid) (matchSubscribeNode sockid) },
      sn.topics.length)

/-- `insert_subscription` and its return value: 0 when the topic was there, 1 when it was appended,
2 when a new node was made. -/
def insertSubscription (self : DdBroker H) (sockid : Frame) (topic : CStr) :
    Option (DdBroker H × Nat) :=
  match self.subscribeHt.lookup (env.xxh32 sockid) (matchSubscribeNode sockid) with
  | none => none
  | some (some sn) =>
    if zlistContainsStr sn.topics topic then some (self, 0)
    else some ({ self with
      subscribeHt := self.subscribeHt.modify (env.xxh32 sockid) (matchSubscribeNode sockid)
        fun sn => { sn with topics := sn.topics ++ [topic] } }, 1)
  | some none => some ({ self with
      subscribeHt := self.subscribeHt.add (env.xxh32 sockid)
        { topics := [topic], sockid := sockid } }, 2)

end DoubleDecker
