import Mathlib.Data.List.Basic
import Mathlib.Data.List.Nodup

/-!
# Trie/Node — the patricia trie of `trie.c`

    nn_trie_node = header (refcount, prefix, sockids, u) followed by an array of child pointers

A pointer is an `Option Node`, the trailing array a `List (Option Node)`.  The functions rebuild the
node they are given; where the C code would read an uninitialised field, follow a `NULL` pointer or
fail an assertion they return `none`.
-/

namespace DoubleDecker

/-- The bytes of a `zframe_t`. -/
abbrev Frame := List UInt8

/-- Equal frames have equal bytes. -/
instance : LawfulBEq Frame := inferInstanceAs (LawfulBEq (List UInt8))

namespace Trie

/-- `NN_TRIE_PREFIX_MAX`. -/
def prefixMax : Nat := 5

/-- `NN_TRIE_SPARSE_MAX`. -/
def sparseMax : Nat := 8

/-- The `sockids` pointer of a node. -/
inductive SockIds where
  /-- `NULL`. -/
  | null
  /-- A `zlist_t` of socket ids. -/
  | list (l : List Frame)
  /-- The field of a node that was allocated without setting it. -/
  | uninit
  deriving DecidableEq, Repr

/-- The union `u`, with the `type` that says which member is in use. -/
inductive Branch where
  /-- `type ≤ NN_TRIE_SPARSE_MAX`: the labels of the children. -/
  | sparse (children : List UInt8)
  /-- `type = NN_TRIE_DENSE_TYPE`: one pointer for each label from `min` to `max`. -/
  | dense (min max : UInt8) (nbr : UInt16)
  deriving DecidableEq, Repr

/-- `struct nn_trie_node` and the array of child pointers that follows it. -/
structure Node where
  refcount : UInt32
  pre : List UInt8
  sockids : SockIds
  u : Branch
  child : List (Option Node)

/-- `self->type`. -/
def Node.type (n : Node) : Nat :=
  match n.u with
  | .sparse cs => cs.length
  | .dense _ _ _ => sparseMax + 1

/-- `*nn_node_child(self, index)`. -/
def Node.at (n : Node) (index : Nat) : Option Node := (n.child[index]?).join

/-- Assignment through `nn_node_child(self, index)`. -/
def Node.setChild (n : Node) (index : Nat) (ch : Option Node) : Node :=
  { n with child := n.child.set index ch }

def nnNodeHasSubscribers (n : Node) : Bool := n.refcount != 0

/-- How many bytes of the data match the prefix. -/
def nnNodeCheckPrefix : List UInt8 → List UInt8 → Nat
  | [], _ => 0
  | _ :: _, [] => 0
  | p :: ps, c :: cs => if p = c then nnNodeCheckPrefix ps cs + 1 else 0

/-- The slot of the next node for a byte; `none` is the `NULL` the C function returns. -/
def nnNodeNext (n : Node) (c : UInt8) : Option Nat :=
  match n.u with
  | .sparse cs => cs.idxOf? c
  | .dense min max _ => if c < min ∨ max < c then none else some (c.toNat - min.toNat)

/-- Tries to merge the node with its only child. -/
def nnNodeCompact (n : Node) : Option Node :=
  if nnNodeHasSubscribers n then some n
  else
    match n.u with
    | .sparse [c] =>
      match n.at 0 with
      | none => none
      | some ch =>
        if n.pre.length + ch.pre.length + 1 > prefixMax then some n
        else some { ch with pre := n.pre ++ c :: ch.pre }
    | _ => some n

/-! ## `nn_trie_subscribe` -/

/-- Step 5 — create the subscription as such.  The number is the return value: 2 when the socket
id was added. -/
def step5 (n : Node) (sockid : Frame) : Option (Node × Nat) :=
  match n.sockids with
  | .uninit => none
  | .null => some ({ n with sockids := .list [sockid], refcount := n.refcount + 1 }, 2)
  | .list l =>
    if sockid ∈ l then some (n, if n.refcount = 1 then 1 else 0)
    else some ({ n with sockids := .list (l ++ [sockid]), refcount := n.refcount + 1 }, 2)

/-- Step 4 — create new nodes for the remaining part of the subscription. -/
def step4 (data : List UInt8) (sockid : Frame) : Option (Node × Nat) :=
  match _h : data.drop prefixMax with
  | [] => step5 ⟨0, data, .null, .sparse [], []⟩ sockid
  | c :: rest => do
    let (ch, r) ← step4 rest sockid
    return (⟨0, data.take prefixMax, .null, .sparse [c], [some ch]⟩, r)
termination_by data.length
decreasing_by
  have := congrArg List.length _h
  simp only [List.length_drop, List.length_cons] at this
  omega

/-- The pointer array of a dense node filled from the labels and pointers of a sparse one. -/
def fillSlots (min : UInt8) (slots : List (Option Node)) :
    List (UInt8 × Option Node) → List (Option Node)
  | [] => slots
  | (c, p) :: rest => fillSlots min (slots.set (c.toNat - min.toNat) p) rest

/-- `new_min < c2 ? new_min : c2`. -/
def lesser (a b : UInt8) : UInt8 := if a < b then a else b

/-- `new_max > c2 ? new_max : c2`. -/
def greater (a b : UInt8) : UInt8 := if b < a then a else b

/-- Step 3 — adjust the child array to accommodate the character `c`, and the slot it gets.  The
dense node made from a full sparse one starts with `refcount` 0 and no list. -/
def growChild (n : Node) (c : UInt8) : Node × Nat :=
  match n.u with
  | .sparse cs =>
    if cs.length < sparseMax then
      ({ n with u := .sparse (cs ++ [c]), child := n.child ++ [none] }, cs.length)
    else
      let newMin := cs.foldl lesser 255 |> lesser c
      let newMax := cs.foldl greater 0 |> greater c
      (⟨0, n.pre, .null, .dense newMin newMax (UInt16.ofNat (cs.length + 1)),
        fillSlots newMin (List.replicate (newMax.toNat - newMin.toNat + 1) none)
          (cs.zip n.child)⟩, c.toNat - newMin.toNat)
  | .dense mn mx nbr =>
    if c < mn then
      ({ n with
          u := .dense c mx (nbr + 1)
          child := List.replicate (mn.toNat - c.toNat) none ++ n.child }, 0)
    else if mx < c then
      ({ n with
          u := .dense mn c (nbr + 1)
          child := n.child ++ List.replicate (c.toNat - mx.toNat) none }, c.toNat - mn.toNat)
    else ({ n with u := .dense mn mx (nbr + 1) }, c.toNat - mn.toNat)

/-- Steps 3 and 4 for the rest of the data, below a node that has no child for it. -/
def step3 (n : Node) (data : List UInt8) (sockid : Frame) : Option (Node × Nat) :=
  match data with
  | [] => step5 n sockid
  | c :: rest => do
    let (ch, r) ← step4 rest sockid
    return ((growChild n c).1.setChild (growChild n c).2 (some ch), r)

/-- Step 2 — split the prefix in two parts at `pos`. -/
def split (n : Node) (pos : Nat) : Option Node := do
  let ch ← nnNodeCompact { n with pre := n.pre.drop (pos + 1) }
  return ⟨0, n.pre.take pos, .null, .sparse [n.pre.getD pos 0], [some ch]⟩

/-- Step 1 — traverse the trie. -/
def subscribeFrom (n : Node) (data : List UInt8) (sockid : Frame) : Option (Node × Nat) :=
  let pos := nnNodeCheckPrefix n.pre data
  if pos < n.pre.length then do
    let n' ← split n pos
    step3 n' (data.drop pos) sockid
  else
    match _h : data.drop pos with
    | [] => step5 n sockid
    | c :: rest =>
      match nnNodeNext n c with
      | none => step3 n (c :: rest) sockid
      | some i =>
        match n.at i with
        | none => step3 n (c :: rest) sockid
        | some ch => do
          let (ch', r) ← subscribeFrom ch rest sockid
          return (n.setChild i (some ch'), r)
termination_by data.length
decreasing_by
  have := congrArg List.length _h
  simp only [List.length_drop, List.length_cons] at this
  omega

def nnTrieSubscribe (root : Option Node) (data : List UInt8) (sockid : Frame) :
    Option (Option Node × Nat) := do
  let (n, r) ←
    match root with
    | none => step4 data sockid
    | some n => subscribeFrom n data sockid
  return (some n, r)

/-! ## `nn_trie_tree` -/

/-- `zlist_append_unique`. -/
def zlistAppendUnique (l : List Frame) (item : Frame) : List Frame :=
  if item ∈ l then l else l ++ [item]

/-- The socket ids of a node that has subscribers, added to those collected so far. -/
def collect (n : Node) (pub : Option (List Frame)) : Option (Option (List Frame)) :=
  if nnNodeHasSubscribers n then
    match n.sockids with
    | .list l => some (some (l.foldl zlistAppendUnique (pub.getD [])))
    | _ => none
  else some pub

/-- The loop of `nn_trie_tree`: the list collected so far is `pub`, `NULL` at the start.  At the end
of the string the byte read is the terminating `NUL`; going on below a child labelled with it would
leave the string. -/
def treeFrom (n : Node) (data : List UInt8) (pub : Option (List Frame)) :
    Option (Option (List Frame)) :=
  if nnNodeCheckPrefix n.pre data ≠ n.pre.length then some pub
  else do
    let pub ← collect n pub
    match _h : data.drop n.pre.length with
    | [] =>
      match (nnNodeNext n 0).bind n.at with
      | none => some pub
      | some _ => none
    | c :: rest =>
      match (nnNodeNext n c).bind n.at with
      | none => some pub
      | some ch => treeFrom ch rest pub
termination_by data.length
decreasing_by
  have := congrArg List.length _h
  simp only [List.length_drop, List.length_cons] at this
  omega

/-- `nn_trie_tree`: the socket ids of all subscriptions that are a prefix of the data. -/
def nnTrieTree (root : Option Node) (data : List UInt8) : Option (Option (List Frame)) :=
  match root with
  | none => some none
  | some n => treeFrom n data none

/-! ## `nn_node_unsubscribe` -/

/-- `-EINVAL`. -/
def eInval : Int := -22

/-- The label `found`: the end of the subscription. -/
def found (self : Option Node) (sockid : Frame) : Option (Option Node × Int) :=
  match self with
  | none => some (none, eInval)
  | some n =>
    if !nnNodeHasSubscribers n then some (some n, eInval)
    else
      match n.sockids with
      | .list l =>
        let n' : Node := { n with refcount := n.refcount - 1, sockids := .list (l.erase sockid) }
        if n'.refcount = 0 then
          if n'.type = 0 then some (none, 1)
          else do
            let n'' ← nnNodeCompact n'
            return (some n'', 1)
        else some (some n', 0)
      | _ => none

/-- The first slot that holds a child, the length of the array when there is none. -/
def firstChild (slots : List (Option Node)) : Nat := slots.findIdx (·.isSome)

/-- The last slot that holds a child, 0 when there is none. -/
def lastChild (slots : List (Option Node)) : Nat :=
  slots.length - 1 - slots.reverse.findIdx (·.isSome)

/-- The labels and pointers of the children a dense array holds. -/
def liveSlots (min : UInt8) : Nat → List (Option Node) → List (UInt8 × Option Node)
  | _, [] => []
  | i, none :: rest => liveSlots min (i + 1) rest
  | i, some ch :: rest => (UInt8.ofNat (i + min.toNat), some ch) :: liveSlots min (i + 1) rest

/-- What `nn_node_unsubscribe` does to a node whose child at slot `i`, label `c`, was destroyed. -/
def prune (n : Node) (i : Nat) (c : UInt8) : Option (Option Node) :=
  match n.u with
  | .sparse cs =>
    let n' : Node := { n with u := .sparse (cs.eraseIdx i), child := n.child.eraseIdx i }
    if n'.type = 0 ∧ !nnNodeHasSubscribers n' then
      match n'.sockids with
      | .uninit => none
      | _ => some none
    else (nnNodeCompact n').map some
  | .dense mn mx nbr =>
    if nbr.toNat > sparseMax + 1 then
      if c = mn then
        let k := firstChild n.child
        some (some { n with
          u := .dense (UInt8.ofNat (k + mn.toNat)) mx (nbr - 1)
          child := n.child.drop k })
      else if c = mx then
        let k := lastChild n.child
        some (some { n with
          u := .dense mn (UInt8.ofNat (k + mn.toNat)) (nbr - 1)
          child := n.child.take (k + 1) })
      else some (some { n with u := .dense mn mx (nbr - 1) })
    else
      let live := liveSlots mn 0 n.child
      if live.length = sparseMax then
        some (some ⟨0, n.pre, .uninit, .sparse (live.map Prod.fst), live.map Prod.snd⟩)
      else none

def nnNodeUnsubscribe (self : Option Node) (data : List UInt8) (sockid : Frame) :
    Option (Option Node × Int) :=
  if data = [] then found self sockid
  else
    match self with
    | none => none
    | some n =>
      if nnNodeCheckPrefix n.pre data ≠ n.pre.length then some (some n, 0)
      else
        match _h : data.drop n.pre.length with
        | [] => found (some n) sockid
        | c :: rest =>
          match nnNodeNext n c with
          | none => some (some n, 0)
          | some i => do
            let (ch, r) ← nnNodeUnsubscribe (n.at i) rest sockid
            let n' := n.setChild i ch
            if r = 0 then return (some n', 0)
            else if ch.isSome then return (some n', 1)
            else return (← prune n' i c, 1)
termination_by data.length
decreasing_by
  have := congrArg List.length _h
  simp only [List.length_drop, List.length_cons] at this
  omega

/-- `nn_trie_unsubscribe`. -/
def nnTrieUnsubscribe (root : Option Node) (data : List UInt8) (sockid : Frame) :
    Option (Option Node × Int) :=
  nnNodeUnsubscribe root data sockid

end Trie

end DoubleDecker
