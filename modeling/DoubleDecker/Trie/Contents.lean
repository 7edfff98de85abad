import DoubleDecker.Trie.Node
import Mathlib.Data.List.Infix

/-!
# Trie/Contents — what a trie holds, and the shape of its nodes

A node stands for a function from keys to lists of socket ids (`subs`): the key spells a path of
prefixes and labels, and the list is the one of the node it ends at.  `WF` is the shape every node
has while no step drops a list of subscribers.
-/

namespace DoubleDecker.Trie

/-! ## The prefix test -/

theorem nnNodeCheckPrefix_le : ∀ p d : List UInt8, nnNodeCheckPrefix p d ≤ p.length
  | [], _ => Nat.le_refl 0
  | _ :: _, [] => Nat.zero_le _
  | p :: ps, c :: cs => by
    unfold nnNodeCheckPrefix
    split
    · exact Nat.succ_le_succ (nnNodeCheckPrefix_le ps cs)
    · exact Nat.zero_le _

@[simp] theorem nnNodeCheckPrefix_append : ∀ p d : List UInt8,
    nnNodeCheckPrefix p (p ++ d) = p.length
  | [], _ => rfl
  | p :: ps, d => by simp [nnNodeCheckPrefix, nnNodeCheckPrefix_append ps d]

/-- The bytes before the first mismatch agree. -/
theorem take_nnNodeCheckPrefix : ∀ p d : List UInt8,
    d.take (nnNodeCheckPrefix p d) = p.take (nnNodeCheckPrefix p d)
  | [], _ => by simp [nnNodeCheckPrefix]
  | _ :: _, [] => by simp [nnNodeCheckPrefix]
  | p :: ps, c :: cs => by
    unfold nnNodeCheckPrefix
    split
    · next h => simp [h, take_nnNodeCheckPrefix ps cs]
    · simp

theorem nnNodeCheckPrefix_eq_iff {p d : List UInt8} :
    nnNodeCheckPrefix p d = p.length ↔ p <+: d := by
  constructor
  · intro h
    have := take_nnNodeCheckPrefix p d
    rw [h, List.take_length] at this
    exact this ▸ List.take_prefix _ _
  · rintro ⟨r, rfl⟩
    exact nnNodeCheckPrefix_append p r

/-- **A partial match, taken apart** — the prefix goes on with a byte the data does not have. -/
theorem exists_split_of_lt : ∀ {p d : List UInt8}, nnNodeCheckPrefix p d < p.length →
    ∃ q x r e, p = q ++ x :: r ∧ d = q ++ e ∧ nnNodeCheckPrefix p d = q.length ∧
      e.head? ≠ some x
  | [], _, h => absurd h (by simp [nnNodeCheckPrefix])
  | p :: ps, [], _ => ⟨[], p, ps, [], rfl, rfl, rfl, by simp⟩
  | p :: ps, c :: cs, h => by
    by_cases hpc : p = c
    · have h' : nnNodeCheckPrefix ps cs < ps.length := by
        simpa [nnNodeCheckPrefix, hpc] using h
      obtain ⟨q, x, r, e, rfl, rfl, hq, he⟩ := exists_split_of_lt h'
      exact ⟨p :: q, x, r, e, rfl, by rw [hpc]; rfl, by simp [nnNodeCheckPrefix, hpc, hq], he⟩
    · refine ⟨[], p, ps, c :: cs, rfl, rfl, by simp [nnNodeCheckPrefix, hpc], ?_⟩
      simpa using fun h => hpc h.symm

/-! ## The children by label -/

/-- The child a label leads to. -/
def Node.next (n : Node) (c : UInt8) : Option Node := (nnNodeNext n c).bind n.at

/-- The subscribers `nn_trie_tree` sees: none while the reference count is 0. -/
def Node.live (n : Node) : List Frame :=
  if n.refcount = 0 then []
  else
    match n.sockids with
    | .list l => l
    | _ => []

theorem mem_child_of_at {n : Node} {i : Nat} {ch : Node} (h : n.at i = some ch) :
    some ch ∈ n.child := by
  rw [Node.at, Option.join_eq_some_iff] at h
  exact List.mem_of_getElem? h

theorem mem_child_of_next {n : Node} {c : UInt8} {ch : Node} (h : n.next c = some ch) :
    some ch ∈ n.child := by
  obtain ⟨i, -, hi⟩ := Option.bind_eq_some_iff.mp h
  exact mem_child_of_at hi

/-- **Two labels never share a slot.** -/
theorem nnNodeNext_inj {n : Node} {c c' : UInt8} {i : Nat} (h : nnNodeNext n c = some i)
    (h' : nnNodeNext n c' = some i) : c = c' := by
  unfold nnNodeNext at h h'
  split at h
  · next cs hu =>
    rw [hu] at h'
    obtain ⟨hi, hc, -⟩ := List.idxOf?_eq_some_iff.mp h
    obtain ⟨_, hc', -⟩ := List.idxOf?_eq_some_iff.mp h'
    exact hc.symm.trans hc'
  · next mn mx nbr hu =>
    rw [hu] at h'
    simp only [Option.ite_none_left_eq_some, not_or, UInt8.not_lt, Option.some.injEq,
      UInt8.le_iff_toNat_le] at h h'
    exact UInt8.toNat_inj.mp (by omega)

@[simp] theorem nnNodeNext_setChild (n : Node) (i : Nat) (x : Option Node) (c : UInt8) :
    nnNodeNext (n.setChild i x) c = nnNodeNext n c := rfl

theorem at_setChild_self {n : Node} {i : Nat} (x : Option Node) (hi : i < n.child.length) :
    (n.setChild i x).at i = x := by
  simp [Node.at, Node.setChild, hi]

theorem at_setChild_ne {n : Node} {i j : Nat} (x : Option Node) (h : i ≠ j) :
    (n.setChild i x).at j = n.at j := by
  simp [Node.at, Node.setChild, List.getElem?_set_ne h]

theorem next_setChild_self {n : Node} {c : UInt8} {i : Nat} (x : Option Node)
    (hc : nnNodeNext n c = some i) (hi : i < n.child.length) : (n.setChild i x).next c = x := by
  rw [Node.next, nnNodeNext_setChild, hc, Option.bind_some, at_setChild_self x hi]

theorem next_setChild_ne {n : Node} {c c' : UInt8} {i : Nat} (x : Option Node)
    (hc : nnNodeNext n c = some i) (h : c' ≠ c) : (n.setChild i x).next c' = n.next c' := by
  unfold Node.next
  rw [nnNodeNext_setChild]
  cases hc' : nnNodeNext n c' with
  | none => rfl
  | some j =>
    have hij : i ≠ j := fun hij => h (nnNodeNext_inj hc' (hij ▸ hc))
    exact at_setChild_ne x hij

@[simp] theorem live_setChild (n : Node) (i : Nat) (x : Option Node) :
    (n.setChild i x).live = n.live := rfl

@[simp] theorem pre_setChild (n : Node) (i : Nat) (x : Option Node) :
    (n.setChild i x).pre = n.pre := rfl

/-! ## The node a key spells -/

/-- The node whose path from `n` spells the key. -/
def nodeAt (n : Node) (key : List UInt8) : Option Node :=
  if n.pre <+: key then
    match _h : key.drop n.pre.length with
    | [] => some n
    | c :: rest =>
      match n.next c with
      | none => none
      | some ch => nodeAt ch rest
  else none
termination_by key.length
decreasing_by
  have := congrArg List.length _h
  simp only [List.length_drop, List.length_cons] at this
  omega

/-- The subscribers of a key. -/
def subs (n : Node) (key : List UInt8) : List Frame := ((nodeAt n key).map Node.live).getD []

theorem nodeAt_off {n : Node} {key : List UInt8} (h : ¬ n.pre <+: key) :
    nodeAt n key = none := by
  rw [nodeAt, if_neg h]

theorem nodeAt_pre {n : Node} : nodeAt n n.pre = some n := by
  rw [nodeAt, if_pos (List.prefix_refl _)]
  split
  · rfl
  · next h => simp at h

theorem nodeAt_pre_cons {n : Node} (c : UInt8) (rest : List UInt8) :
    nodeAt n (n.pre ++ c :: rest) = (n.next c).bind (nodeAt · rest) := by
  rw [nodeAt, if_pos (List.prefix_append _ _)]
  split
  · next h => simp at h
  · next h =>
    simp only [List.drop_left, List.cons.injEq] at h
    obtain ⟨rfl, rfl⟩ := h
    cases n.next c <;> rfl

theorem subs_off {n : Node} {key : List UInt8} (h : ¬ n.pre <+: key) :
    subs n key = [] := by
  rw [subs, nodeAt_off h]; rfl

@[simp] theorem subs_pre (n : Node) : subs n n.pre = n.live := by
  rw [subs, nodeAt_pre]; rfl

theorem subs_pre_cons {n : Node} (c : UInt8) (rest : List UInt8) :
    subs n (n.pre ++ c :: rest) = ((n.next c).map (subs · rest)).getD [] := by
  rw [subs, nodeAt_pre_cons]
  cases n.next c <;> rfl

/-- **Every key is off the path, the node's own, or goes on below it.** -/
theorem key_cases (n : Node) (key : List UInt8) :
    ¬ n.pre <+: key ∨ key = n.pre ∨ ∃ c rest, key = n.pre ++ c :: rest := by
  by_cases h : n.pre <+: key
  · obtain ⟨r, rfl⟩ := h
    cases r with
    | nil => exact Or.inr (Or.inl (List.append_nil _))
    | cons c rest => exact Or.inr (Or.inr ⟨c, rest, rfl⟩)
  · exact Or.inl h

/-! ## The shape of a node -/

/-- The list of a node and its reference count. -/
def SocksOk (n : Node) : Prop :=
  match n.sockids with
  | .list l => l.Nodup ∧ n.refcount.toNat = l.length
  | _ => n.refcount = 0

/-- The union and the array of child pointers. -/
def BranchOk (u : Branch) (child : List (Option Node)) : Prop :=
  match u with
  | .sparse cs => cs.Nodup ∧ cs.length ≤ sparseMax ∧ child.length = cs.length ∧ 0 ∉ cs ∧
      ∀ p ∈ child, p.isSome
  | .dense mn mx nbr => mn ≠ 0 ∧ mn ≤ mx ∧ child.length = mx.toNat - mn.toNat + 1 ∧
      sparseMax < nbr.toNat ∧ nbr.toNat = child.countP (·.isSome) ∧
      (∃ ch, child[0]? = some (some ch)) ∧ ∃ ch, child[mx.toNat - mn.toNat]? = some (some ch)

/-- The shape of one node. -/
structure NodeOk (n : Node) : Prop where
  pre_le : n.pre.length ≤ prefixMax
  pre_nul : 0 ∉ n.pre
  socks : SocksOk n
  branch : BranchOk n.u n.child
  /-- A node without subscribers has a child. -/
  busy : n.refcount = 0 → n.child ≠ []

/-- **A well-formed trie**: every node in it has the shape. -/
inductive WF : Node → Prop
  | mk {n : Node} : NodeOk n → (∀ ch, some ch ∈ n.child → WF ch) → WF n

theorem WF.ok {n : Node} (h : WF n) : NodeOk n := by cases h; assumption

theorem WF.child {n ch : Node} (h : WF n) (hc : some ch ∈ n.child) : WF ch := by
  cases h with | mk _ hch => exact hch ch hc

theorem WF.next {n ch : Node} {c : UInt8} (h : WF n) (hc : n.next c = some ch) : WF ch :=
  h.child (mem_child_of_next hc)

/-- What is left of `BranchOk` when a dense node may count fewer children than it has: every label
has a slot, and none is the terminating `NUL`. -/
def LabelsOk (u : Branch) (child : List (Option Node)) : Prop :=
  match u with
  | .sparse cs => BranchOk (.sparse cs) child
  | .dense mn mx nbr => mn ≠ 0 ∧ mn ≤ mx ∧ child.length = mx.toNat - mn.toNat + 1 ∧
      nbr.toNat ≤ child.countP (·.isSome)

theorem BranchOk.labels {u : Branch} {child : List (Option Node)} (h : BranchOk u child) :
    LabelsOk u child := by
  cases u with
  | sparse cs => exact h
  | dense mn mx nbr =>
    obtain ⟨hmn, hle, hlen, -, hnbr, -, -⟩ := h
    exact ⟨hmn, hle, hlen, hnbr.le⟩

theorem LabelsOk.slot_lt {n : Node} (h : LabelsOk n.u n.child) {c : UInt8} {i : Nat}
    (hc : nnNodeNext n c = some i) : i < n.child.length := by
  unfold nnNodeNext at hc
  unfold LabelsOk at h
  split at hc
  · next cs hu =>
    simp only [hu] at h
    obtain ⟨hi, -, -⟩ := List.idxOf?_eq_some_iff.mp hc
    rw [h.2.2.1]; exact hi
  · next mn mx nbr hu =>
    simp only [hu] at h
    simp only [Option.ite_none_left_eq_some, not_or, UInt8.not_lt, Option.some.injEq,
      UInt8.le_iff_toNat_le] at hc
    rw [h.2.2.1]
    omega

/-- No child is labelled with the terminating `NUL`. -/
theorem LabelsOk.next_zero {n : Node} (h : LabelsOk n.u n.child) : nnNodeNext n 0 = none := by
  unfold nnNodeNext
  unfold LabelsOk at h
  split
  · next cs hu =>
    simp only [hu] at h
    exact List.idxOf?_eq_none_iff.mpr h.2.2.2.1
  · next mn mx nbr hu =>
    simp only [hu] at h
    have : (0 : UInt8) < mn := by
      have := h.1
      rw [UInt8.lt_iff_toNat_lt]
      rcases Nat.eq_zero_or_pos mn.toNat with h0 | h0
      · exact absurd (UInt8.toNat_inj.mp (h0.trans rfl)) this
      · simpa using h0
    rw [if_pos (Or.inl this)]

theorem BranchOk.slot_lt {n : Node} (h : BranchOk n.u n.child) {c : UInt8} {i : Nat}
    (hc : nnNodeNext n c = some i) : i < n.child.length := h.labels.slot_lt hc

theorem BranchOk.next_zero {n : Node} (h : BranchOk n.u n.child) : nnNodeNext n 0 = none :=
  h.labels.next_zero

/-- **The live list is the whole list** of a node in shape. -/
theorem SocksOk.live_eq {n : Node} (h : SocksOk n) {l : List Frame} (hl : n.sockids = .list l) :
    n.live = l := by
  unfold SocksOk at h
  simp only [hl] at h
  unfold Node.live
  simp only [hl]
  split
  · next h0 =>
    rw [h0] at h
    exact (List.eq_nil_of_length_eq_zero h.2.symm).symm
  · rfl

theorem SocksOk.nodup {n : Node} (h : SocksOk n) : n.live.Nodup := by
  unfold Node.live
  unfold SocksOk at h
  split
  · exact List.nodup_nil
  · split
    · next l hl => simp only [hl] at h; exact h.1
    · exact List.nodup_nil

theorem live_of_refcount {n : Node} (h : n.refcount = 0) : n.live = [] := by
  rw [Node.live, if_pos h]

/-- A subscriber of a node in shape is in its list, and its count is not 0. -/
theorem SocksOk.of_mem_live {n : Node} {s : Frame} (h : s ∈ n.live) :
    n.refcount ≠ 0 ∧ ∃ l, n.sockids = .list l ∧ s ∈ l := by
  unfold Node.live at h
  split at h
  · exact absurd h List.not_mem_nil
  · next h0 =>
    split at h
    · next l hl => exact ⟨h0, l, hl, h⟩
    · exact absurd h List.not_mem_nil

theorem WF.subs_nodup {n : Node} (h : WF n) (key : List UInt8) : (subs n key).Nodup := by
  induction h generalizing key with
  | @mk n hok _ ih =>
    rcases key_cases n key with h | rfl | ⟨c, rest, rfl⟩
    · rw [subs_off h]; exact List.nodup_nil
    · rw [subs_pre]; exact hok.socks.nodup
    · rw [subs_pre_cons]
      cases hc : n.next c with
      | none => exact List.nodup_nil
      | some ch => exact ih ch (mem_child_of_next hc) rest

end DoubleDecker.Trie
