import DoubleDecker.Trie.Tight

/-!
# Trie/Lookup — the lookups with their pointer and their size

`treeFrom` takes the string apart as a list.  Here the two lookups of `trie.c` keep what the C code
keeps, a pointer into a `NUL`-terminated string and an unsigned `size`, which neither loop tests
before it reads the next byte and counts down.  In a tight trie no child is labelled `NUL`, and so a
lookup ends in front of the bytes behind the string.
-/

namespace DoubleDecker.Trie

/-! ## The code -/

/-- The byte at an offset into a string, the `NUL` behind it included.  `none` is a read outside. -/
def byteAt (x : List UInt8) (data : Nat) : Option UInt8 := (x ++ [0])[data]?

/-- Subtraction on `size_t`. -/
def sizeMinus (size k : Nat) : Nat := if k ≤ size then size - k else size + 2 ^ 64 - k

/-- `nn_node_check_prefix`, reading from the string. -/
def checkPrefixAt (x : List UInt8) : List UInt8 → Nat → Nat → Option Nat
  | [], _, _ => some 0
  | p :: ps, data, size =>
    if size = 0 then some 0
    else do
      let c ← byteAt x data
      if p = c then return (← checkPrefixAt x ps (data + 1) (sizeMinus size 1)) + 1 else return 0

/-- `tmp = nn_node_next(node, c); node = tmp ? *tmp : NULL`.  The outer `none` is a read outside the
child array. -/
def nextAt (n : Node) (c : UInt8) : Option (Option Node) :=
  match nnNodeNext n c with
  | none => some none
  | some i => n.child[i]?

/-- What a lookup leaves: its result, `data` and `size` at the head of every turn of the loop that
had a node, and `size` at the end. -/
structure Lookup (α : Type) where
  result : α
  turns : List (Nat × Nat)
  size : Nat

theorem sizeOf_nextAt {n ch : Node} {c : UInt8} (h : nextAt n c = some (some ch)) :
    sizeOf ch < sizeOf n := by
  unfold nextAt at h
  split at h
  · cases h
  · have hmem := List.sizeOf_lt_of_mem (List.mem_of_getElem? h)
    cases n
    simp only [Option.some.sizeOf_spec, Node.mk.sizeOf_spec] at hmem ⊢
    omega

/-- The loop the two lookups share.  `visit` is what is done at a node whose prefix matched; it says
whether the lookup returns there. -/
def lookupFrom {α : Type} (visit : Node → α → Option (α × Bool)) (x : List UInt8) (n : Node)
    (data size : Nat) (acc : α) : Option (Lookup α) := do
  let pos ← checkPrefixAt x n.pre data size
  if pos ≠ n.pre.length then return ⟨acc, [(data, size)], size⟩
  else
    let (acc, done) ← visit n acc
    let size' := sizeMinus size n.pre.length
    if done then return ⟨acc, [(data, size)], size'⟩
    else
      let c ← byteAt x (data + n.pre.length)
      match h : nextAt n c with
      | none => none
      | some none => return ⟨acc, [(data, size)], sizeMinus size' 1⟩
      | some (some ch) =>
        let l ← lookupFrom visit x ch (data + n.pre.length + 1) (sizeMinus size' 1) acc
        return { l with turns := (data, size) :: l.turns }
termination_by sizeOf n
decreasing_by exact sizeOf_nextAt h

/-- `nn_trie_tree` collects and goes on. -/
def treeVisit (n : Node) (pub : Option (List Frame)) : Option (Option (List Frame) × Bool) :=
  (collect n pub).map (·, false)

/-- `nn_trie_match` returns 1 at the first node that has subscribers. -/
def matchVisit (n : Node) (_ : Nat) : Option (Nat × Bool) :=
  some (if nnNodeHasSubscribers n then (1, true) else (0, false))

/-- `nn_trie_tree(self, x, strlen(x))`. -/
def nnTrieTreeAt (root : Option Node) (x : List UInt8) : Option (Lookup (Option (List Frame))) :=
  match root with
  | none => some ⟨none, [], x.length⟩
  | some n => lookupFrom treeVisit x n 0 x.length none

/-- `nn_trie_match(self, x, strlen(x))`. -/
def nnTrieMatchAt (root : Option Node) (x : List UInt8) : Option (Lookup Nat) :=
  match root with
  | none => some ⟨0, [], x.length⟩
  | some n => lookupFrom matchVisit x n 0 x.length 0

/-! ## One turn -/

theorem sizeMinus_of_le {size k : Nat} (h : k ≤ size) : sizeMinus size k = size - k := if_pos h

theorem byteAt_of_drop_nil {x : List UInt8} {data : Nat} (h : data ≤ x.length)
    (hd : x.drop data = []) : byteAt x data = some 0 := by
  have hlen : data = x.length := Nat.le_antisymm h (List.drop_eq_nil_iff.mp hd)
  rw [byteAt, hlen]
  simp

theorem byteAt_of_drop_cons {x rest : List UInt8} {data : Nat} {c : UInt8}
    (hd : x.drop data = c :: rest) : byteAt x data = some c := by
  have hlt : data < x.length := by
    have := congrArg List.length hd
    rw [List.length_drop, List.length_cons] at this
    omega
  rw [byteAt, List.getElem?_append_left hlt, ← Nat.add_zero data, ← List.getElem?_drop, hd]
  rfl

/-- **The prefix test stays inside the string** and finds what it finds on the list. -/
theorem checkPrefixAt_eq {x : List UInt8} : ∀ {p : List UInt8} {data size : Nat},
    data + size = x.length → checkPrefixAt x p data size = some (nnNodeCheckPrefix p (x.drop data))
  | [], _, _, _ => by simp [checkPrefixAt, nnNodeCheckPrefix]
  | p :: ps, data, size, h => by
    rw [checkPrefixAt]
    split
    · next h0 =>
      rw [List.drop_eq_nil_of_le (by omega)]
      rfl
    · next h0 =>
      cases hd : x.drop data with
      | nil =>
        have := List.drop_eq_nil_iff.mp hd
        omega
      | cons c rest =>
        have hrest : x.drop (data + 1) = rest := by
          rw [← List.drop_drop, hd, List.drop_one, List.tail_cons]
        have hsize : data + 1 + (size - 1) = x.length := by omega
        rw [byteAt_of_drop_cons hd, nnNodeCheckPrefix, sizeMinus_of_le (by omega),
          checkPrefixAt_eq hsize, hrest]
        simp only [Option.bind_eq_bind, Option.bind_some, Option.pure_def]
        split <;> rfl

theorem nextAt_eq {n : Node} (hn : NodeTight n) (c : UInt8) : nextAt n c = some (n.next c) := by
  unfold nextAt Node.next
  split
  · next hc => rw [hc]; rfl
  · next i hc =>
    rw [hc, Option.bind_some, Node.at, List.getElem?_eq_getElem (hn.labels.slot_lt hc)]
    rfl

/-- **One turn of the loop at a tight node**: every read is inside, and the lookup goes on only
while there are bytes left. -/
theorem lookupFrom_eq {α : Type} (visit : Node → α → Option (α × Bool)) {x : List UInt8} {n : Node}
    (hn : NodeTight n) {data size : Nat} (h : data + size = x.length) (acc : α) :
    lookupFrom visit x n data size acc =
      if n.pre <+: x.drop data then
        (visit n acc).bind fun p =>
          if p.2 then some ⟨p.1, [(data, size)], size - n.pre.length⟩
          else
            match x.drop (data + n.pre.length) with
            | [] => some ⟨p.1, [(data, size)], 2 ^ 64 - 1⟩
            | c :: _ =>
              match n.next c with
              | none => some ⟨p.1, [(data, size)], size - n.pre.length - 1⟩
              | some ch =>
                (lookupFrom visit x ch (data + n.pre.length + 1) (size - n.pre.length - 1) p.1).map
                  fun l => { l with turns := (data, size) :: l.turns }
      else some ⟨acc, [(data, size)], size⟩ := by
  rw [lookupFrom, checkPrefixAt_eq h]
  simp only [Option.bind_eq_bind, Option.bind_some, Option.pure_def, ne_eq,
    nnNodeCheckPrefix_eq_iff, ite_not]
  split
  · next hpre =>
    have hle : n.pre.length ≤ size := by
      have := hpre.length_le
      rw [List.length_drop] at this
      omega
    cases hv : visit n acc with
    | none => rfl
    | some p =>
      obtain ⟨acc', done⟩ := p
      simp only [Option.bind_some]
      split
      · rw [sizeMinus_of_le hle]
      · cases hd : x.drop (data + n.pre.length) with
        | nil =>
          have hsize : size = n.pre.length := by
            have := List.drop_eq_nil_iff.mp hd
            omega
          have hnext : nextAt n 0 = some none := by
            rw [nextAt_eq hn, Node.next, hn.labels.next_zero]
            rfl
          rw [byteAt_of_drop_nil (by omega) hd, Option.bind_some]
          split
          · next h' => rw [hnext] at h'; cases h'
          · rw [sizeMinus_of_le hle, hsize, Nat.sub_self]
            rfl
          · next h' => rw [hnext] at h'; cases h'
        | cons c rest =>
          have hlt : 1 ≤ size - n.pre.length := by
            have := congrArg List.length hd
            rw [List.length_drop, List.length_cons] at this
            omega
          rw [byteAt_of_drop_cons hd, Option.bind_some, sizeMinus_of_le hle, sizeMinus_of_le hlt]
          simp only
          split
          · next h' => rw [nextAt_eq hn] at h'; cases h'
          · next h' =>
            rw [nextAt_eq hn, Option.some.injEq] at h'
            rw [h']
          · next ch h' =>
            rw [nextAt_eq hn, Option.some.injEq] at h'
            simp only [h']
            cases lookupFrom visit x ch (data + n.pre.length + 1) (size - n.pre.length - 1) acc' <;>
              rfl
  · rfl

/-! ## A whole lookup -/

/-- **The lookup stayed inside the string**: `size` is what is left behind `data` in every turn, it
goes down from turn to turn, and only the last count, after which there is no turn, may wrap. -/
structure Inside {α : Type} (x : List UInt8) (l : Lookup α) : Prop where
  left : ∀ t ∈ l.turns, t.1 + t.2 = x.length
  down : l.turns.Pairwise fun t t' => t'.2 < t.2
  few : l.turns.length ≤ x.length + 1
  last : l.size ≤ x.length ∨ l.size = 2 ^ 64 - 1

theorem lookupFrom_inside {α : Type} {visit : Node → α → Option (α × Bool)}
    (hvisit : ∀ n acc, NodeTight n → (visit n acc).isSome) {x : List UInt8} {n : Node}
    (hn : Tight n) : ∀ {data size : Nat} (acc : α), data + size = x.length →
    ∃ l, lookupFrom visit x n data size acc = some l ∧ Inside x l ∧
      (∀ t ∈ l.turns, t.2 ≤ size) ∧ l.turns.length ≤ size + 1 := by
  induction hn with
  | @mk n hnode _ ih =>
  intro data size acc h
  have hstop : ∀ (a : α) (k : Nat), k ≤ x.length ∨ k = 2 ^ 64 - 1 →
      Inside x ⟨a, [(data, size)], k⟩ ∧ (∀ t ∈ [(data, size)], t.2 ≤ size) ∧
        [(data, size)].length ≤ size + 1 := fun a k hk =>
    ⟨⟨by simpa using h, List.pairwise_singleton _ _, by simp, hk⟩, by simp, by simp⟩
  rw [lookupFrom_eq visit hnode h]
  split
  · next hpre =>
    obtain ⟨⟨acc', done⟩, hv⟩ := Option.isSome_iff_exists.mp (hvisit n acc hnode)
    rw [hv, Option.bind_some]
    split
    · exact ⟨_, rfl, hstop _ _ (Or.inl (by omega))⟩
    · split
      · exact ⟨_, rfl, hstop _ _ (Or.inr rfl)⟩
      · next c rest hd =>
        split
        · exact ⟨_, rfl, hstop _ _ (Or.inl (by omega))⟩
        · next ch hc =>
          have hlen := congrArg List.length hd
          rw [List.length_drop, List.length_cons] at hlen
          have hsize : data + n.pre.length + 1 + (size - n.pre.length - 1) = x.length := by omega
          obtain ⟨l, hl, hin, hle, hfew⟩ := ih ch (mem_child_of_next hc) acc' hsize
          rw [hl]
          have hfew' : l.turns.length + 1 ≤ size + 1 := by omega
          refine ⟨_, rfl, ⟨?_, ?_, hfew'.trans (by omega), hin.last⟩, ?_, hfew'⟩
          · rintro t (_ | ⟨_, ht⟩)
            · exact h
            · exact hin.left t ht
          · refine List.pairwise_cons.mpr ⟨fun t ht => ?_, hin.down⟩
            have := hle t ht
            simp only
            omega
          · rintro t (_ | ⟨_, ht⟩)
            · exact Nat.le_refl _
            · exact (hle t ht).trans (by omega)
  · exact ⟨_, rfl, hstop _ _ (Or.inl (by omega))⟩

theorem treeVisit_isSome (n : Node) (pub : Option (List Frame)) (hn : NodeTight n) :
    (treeVisit n pub).isSome := by
  unfold treeVisit collect
  split
  · next hsub =>
    obtain ⟨l, hl⟩ := hn.socks (by simpa [nnNodeHasSubscribers] using hsub)
    rw [hl]
    rfl
  · rfl

/-- **The result is that of the lookup on the list.** -/
theorem lookupFrom_tree {x : List UInt8} {n : Node} (hn : Tight n) :
    ∀ {data size : Nat} (pub : Option (List Frame)), data + size = x.length →
    (lookupFrom treeVisit x n data size pub).map (·.result) = treeFrom n (x.drop data) pub := by
  induction hn with
  | @mk n hnode _ ih =>
  intro data size pub h
  rw [lookupFrom_eq treeVisit hnode h, treeFrom_eq, List.drop_drop]
  split
  · cases hc : collect n pub with
    | none => simp [treeVisit, hc]
    | some pub' =>
      simp only [treeVisit, hc, Option.map_some, Option.bind_some, Bool.false_eq_true, if_false]
      cases hd : x.drop (data + n.pre.length) with
      | nil =>
        have hzero : n.next 0 = none := by rw [Node.next, hnode.labels.next_zero]; rfl
        simp [hzero]
      | cons c rest =>
        have hlen := congrArg List.length hd
        rw [List.length_drop, List.length_cons] at hlen
        have hrest : x.drop (data + n.pre.length + 1) = rest := by
          rw [← List.drop_drop, hd, List.drop_one, List.tail_cons]
        cases hnext : n.next c with
        | none => simp [hnext]
        | some ch =>
          have hsize : data + n.pre.length + 1 + (size - n.pre.length - 1) = x.length := by omega
          have hch := ih ch (mem_child_of_next hnext) pub' hsize
          simp only [hnext, Option.map_map, Option.map_some, Option.getD_some]
          rw [← hrest, ← hch]
          rfl
  · rfl

theorem inside_empty {α : Type} (x : List UInt8) (a : α) : Inside x ⟨a, [], x.length⟩ :=
  ⟨by simp, List.Pairwise.nil, Nat.zero_le _, Or.inl (Nat.le_refl _)⟩

/-- **`nn_trie_tree` of a tight trie** stays inside its string. -/
theorem TightRoot.lookup_tree {root : Option Node} (h : TightRoot root) (x : List UInt8) :
    ∃ l, nnTrieTreeAt root x = some l ∧ Inside x l ∧ nnTrieTree root x = some l.result := by
  cases root with
  | none => exact ⟨_, rfl, inside_empty _ _, rfl⟩
  | some n =>
    have hn := h n rfl
    obtain ⟨l, hl, hin, -⟩ := lookupFrom_inside treeVisit_isSome hn none (Nat.zero_add x.length)
    have htree := lookupFrom_tree hn none (Nat.zero_add x.length)
    rw [hl] at htree
    exact ⟨l, hl, hin, htree.symm⟩

/-- **`nn_trie_match` of a tight trie** stays inside its string. -/
theorem TightRoot.lookup_match {root : Option Node} (h : TightRoot root) (x : List UInt8) :
    ∃ l, nnTrieMatchAt root x = some l ∧ Inside x l := by
  cases root with
  | none => exact ⟨_, rfl, inside_empty _ _⟩
  | some n =>
    have hmatch : ∀ n acc, NodeTight n → (matchVisit n acc).isSome := fun _ _ _ => rfl
    obtain ⟨l, hl, hin, -⟩ := lookupFrom_inside hmatch (h n rfl) 0 (Nat.zero_add x.length)
    exact ⟨l, hl, hin⟩

/-- **The lookups stay inside their string** in every trie built from the empty one by calls that
returned: both return after one turn for each byte and one more at most, read nothing behind the
`NUL`, and go on to no node once `size` is 0.  `nn_trie_tree` finds what it finds on the list. -/
theorem lookups_inside {ops : List Op} {root : Option Node} {x : List UInt8}
    (hnul : ∀ t s, Op.subscribe t s ∈ ops → 0 ∉ t) (hexec : exec none ops = some root) :
    (∃ l, nnTrieTreeAt root x = some l ∧ Inside x l ∧ nnTrieTree root x = some l.result) ∧
      ∃ l, nnTrieMatchAt root x = some l ∧ Inside x l := by
  have htight := exec_tight tightRoot_none hnul hexec
  exact ⟨htight.lookup_tree x, htight.lookup_match x⟩

theorem lookups_inside_nineBelow : ∃ root, exec none nineBelow = some root ∧
    (∃ l, nnTrieTreeAt root [97] = some l ∧ Inside [97] l ∧ nnTrieTree root [97] = some l.result) ∧
      ∃ l, nnTrieMatchAt root [97] = some l ∧ Inside [97] l := by
  have hsome : (exec none nineBelow).isSome := by decide +kernel
  obtain ⟨root, hroot⟩ := Option.isSome_iff_exists.mp hsome
  refine ⟨root, hroot, lookups_inside (fun t s h => ?_) hroot⟩
  simp only [nineBelow, List.range, List.range.loop, List.map_cons, List.map_nil, List.mem_cons,
    Op.subscribe.injEq, List.not_mem_nil, or_false] at h
  rcases h with ⟨rfl, -⟩ | ⟨rfl, -⟩ | ⟨rfl, -⟩ | ⟨rfl, -⟩ | ⟨rfl, -⟩ | ⟨rfl, -⟩ | ⟨rfl, -⟩
    | ⟨rfl, -⟩ | ⟨rfl, -⟩ | ⟨rfl, -⟩ <;> decide

/-- A string that is matched to its end leaves `size` wrapped. -/
theorem not_lookups_unwrapped : ¬ ∀ ops root x, (∀ t s, Op.subscribe t s ∈ ops → 0 ∉ t) →
    exec none ops = some root → 0 ∉ x → ∃ l, nnTrieTreeAt root x = some l ∧ l.size ≤ x.length := by
  intro h
  have hsome : (exec none [.subscribe [97] [1]]).isSome := by decide +kernel
  obtain ⟨root, hroot⟩ := Option.isSome_iff_exists.mp hsome
  obtain ⟨l, hl, hsize⟩ := h [.subscribe [97] [1]] root [97] (by simp) hroot (by decide)
  have hwrap : ((exec none [.subscribe [97] [1]]).bind (nnTrieTreeAt · [97])).map (·.size) =
      some (2 ^ 64 - 1) := by decide +kernel
  rw [hroot, Option.bind_some, hl, Option.map_some, Option.some.injEq] at hwrap
  rw [hwrap] at hsize
  exact absurd hsize (by decide)

end DoubleDecker.Trie
