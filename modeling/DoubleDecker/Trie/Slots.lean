import DoubleDecker.Trie.Contents

/-!
# Trie/Slots — a child array grown by one label

`growChild` appends to the sparse labels, converts a full sparse array to a dense one, or widens the
dense range.  Whatever it does, seen through `Node.next` one label gets a slot and no other label
changes: that is `Grown`.
-/

namespace DoubleDecker.Trie

/-! ## The range of the labels -/

theorem lesser_le_left (a b : UInt8) : lesser a b ≤ a := by
  unfold lesser
  split
  · exact UInt8.le_refl a
  · next h => exact UInt8.not_lt.mp h

theorem lesser_le_right (a b : UInt8) : lesser a b ≤ b := by
  unfold lesser
  split
  · next h => exact UInt8.le_of_lt h
  · exact UInt8.le_refl b

theorem lesser_eq (a b : UInt8) : lesser a b = a ∨ lesser a b = b := by
  unfold lesser
  split
  · exact Or.inl rfl
  · exact Or.inr rfl

theorem le_greater_left (a b : UInt8) : a ≤ greater a b := by
  unfold greater
  split
  · exact UInt8.le_refl a
  · next h => exact UInt8.not_lt.mp h

theorem le_greater_right (a b : UInt8) : b ≤ greater a b := by
  unfold greater
  split
  · next h => exact UInt8.le_of_lt h
  · exact UInt8.le_refl b

theorem greater_eq (a b : UInt8) : greater a b = a ∨ greater a b = b := by
  unfold greater
  split
  · exact Or.inl rfl
  · exact Or.inr rfl

theorem foldl_lesser : ∀ (cs : List UInt8) (m : UInt8),
    cs.foldl lesser m ≤ m ∧ (∀ x ∈ cs, cs.foldl lesser m ≤ x) ∧
      (cs.foldl lesser m = m ∨ cs.foldl lesser m ∈ cs)
  | [], m => ⟨UInt8.le_refl m, by simp, Or.inl rfl⟩
  | c :: cs, m => by
    obtain ⟨h1, h2, h3⟩ := foldl_lesser cs (lesser m c)
    rw [List.foldl_cons]
    refine ⟨UInt8.le_trans h1 (lesser_le_left m c), ?_, ?_⟩
    · intro x hx
      rcases List.mem_cons.mp hx with rfl | hx
      · exact UInt8.le_trans h1 (lesser_le_right m x)
      · exact h2 x hx
    · rcases h3 with h3 | h3
      · rcases lesser_eq m c with h4 | h4
        · exact Or.inl (h3.trans h4)
        · exact Or.inr (by rw [h3, h4]; exact List.mem_cons_self)
      · exact Or.inr (List.mem_cons_of_mem c h3)

theorem foldl_greater : ∀ (cs : List UInt8) (m : UInt8),
    m ≤ cs.foldl greater m ∧ (∀ x ∈ cs, x ≤ cs.foldl greater m) ∧
      (cs.foldl greater m = m ∨ cs.foldl greater m ∈ cs)
  | [], m => ⟨UInt8.le_refl m, by simp, Or.inl rfl⟩
  | c :: cs, m => by
    obtain ⟨h1, h2, h3⟩ := foldl_greater cs (greater m c)
    rw [List.foldl_cons]
    refine ⟨UInt8.le_trans (le_greater_left m c) h1, ?_, ?_⟩
    · intro x hx
      rcases List.mem_cons.mp hx with rfl | hx
      · exact UInt8.le_trans (le_greater_right m x) h1
      · exact h2 x hx
    · rcases h3 with h3 | h3
      · rcases greater_eq m c with h4 | h4
        · exact Or.inl (h3.trans h4)
        · exact Or.inr (by rw [h3, h4]; exact List.mem_cons_self)
      · exact Or.inr (List.mem_cons_of_mem c h3)

/-- The least label of a sparse array and the new one. -/
theorem newMin_spec (cs : List UInt8) (c : UInt8) :
    (∀ x ∈ c :: cs, lesser c (cs.foldl lesser 255) ≤ x) ∧
      lesser c (cs.foldl lesser 255) ∈ c :: cs := by
  obtain ⟨-, h2, h3⟩ := foldl_lesser cs 255
  constructor
  · intro x hx
    rcases List.mem_cons.mp hx with rfl | hx
    · exact lesser_le_left _ _
    · exact UInt8.le_trans (lesser_le_right _ _) (h2 x hx)
  · rcases lesser_eq c (cs.foldl lesser 255) with h | h
    · rw [h]; exact List.mem_cons_self
    · rcases h3 with h3 | h3
      · have hle := lesser_le_left c (cs.foldl lesser 255)
        rw [h, h3] at hle
        rw [h, h3, UInt8.le_antisymm hle (UInt8.le_iff_toNat_le.mpr (Nat.le_of_lt_succ c.toNat_lt))]
        exact List.mem_cons_self
      · rw [h]; exact List.mem_cons_of_mem c h3

/-- The greatest label of a sparse array and the new one. -/
theorem newMax_spec (cs : List UInt8) (c : UInt8) :
    (∀ x ∈ c :: cs, x ≤ greater c (cs.foldl greater 0)) ∧
      greater c (cs.foldl greater 0) ∈ c :: cs := by
  obtain ⟨-, h2, h3⟩ := foldl_greater cs 0
  constructor
  · intro x hx
    rcases List.mem_cons.mp hx with rfl | hx
    · exact le_greater_left _ _
    · exact UInt8.le_trans (h2 x hx) (le_greater_right _ _)
  · rcases greater_eq c (cs.foldl greater 0) with h | h
    · rw [h]; exact List.mem_cons_self
    · rcases h3 with h3 | h3
      · have hle := le_greater_left c (cs.foldl greater 0)
        rw [h, h3] at hle
        rw [h, h3, UInt8.le_antisymm (UInt8.le_iff_toNat_le.mpr (Nat.zero_le _)) hle]
        exact List.mem_cons_self
      · rw [h]; exact List.mem_cons_of_mem c h3

/-! ## A dense array filled from a sparse one -/

@[simp] theorem length_fillSlots (mn : UInt8) : ∀ (ps : List (UInt8 × Option Node))
    (slots : List (Option Node)), (fillSlots mn slots ps).length = slots.length
  | [], _ => rfl
  | (c, p) :: ps, slots => by
    rw [fillSlots, length_fillSlots mn ps, List.length_set]

theorem getElem?_fillSlots_of_ne {mn : UInt8} {k : Nat} : ∀ {ps : List (UInt8 × Option Node)}
    {slots : List (Option Node)}, (∀ q ∈ ps, q.1.toNat - mn.toNat ≠ k) →
      (fillSlots mn slots ps)[k]? = slots[k]?
  | [], _, _ => rfl
  | (c, p) :: ps, slots, h => by
    rw [fillSlots, getElem?_fillSlots_of_ne fun q hq => h q (List.mem_cons_of_mem _ hq),
      List.getElem?_set_ne (h (c, p) List.mem_cons_self)]

theorem getElem?_fillSlots_of_mem {mn : UInt8} {c : UInt8} {p : Option Node} :
    ∀ {ps : List (UInt8 × Option Node)} {slots : List (Option Node)},
      (ps.map Prod.fst).Nodup → (∀ q ∈ ps, mn ≤ q.1) → (c, p) ∈ ps →
      c.toNat - mn.toNat < slots.length →
      (fillSlots mn slots ps)[c.toNat - mn.toNat]? = some p
  | [], _, _, _, hm, _ => absurd hm List.not_mem_nil
  | (c', p') :: ps, slots, hnd, hle, hm, hlt => by
    rw [fillSlots]
    rw [List.map_cons, List.nodup_cons] at hnd
    rcases List.mem_cons.mp hm with h | h
    · obtain ⟨rfl, rfl⟩ := Prod.mk.inj h
      rw [getElem?_fillSlots_of_ne, List.getElem?_set_self hlt]
      intro q hq heq
      have h1 : mn.toNat ≤ c.toNat := UInt8.le_iff_toNat_le.mp (hle (c, p) List.mem_cons_self)
      have h2 := UInt8.le_iff_toNat_le.mp (hle q (List.mem_cons_of_mem _ hq))
      have : q.1 = c := UInt8.toNat_inj.mp (by omega)
      exact hnd.1 (List.mem_map.mpr ⟨q, hq, this⟩)
    · exact getElem?_fillSlots_of_mem hnd.2 (fun q hq => hle q (List.mem_cons_of_mem _ hq)) h
        (by rw [List.length_set]; exact hlt)

/-- Filling empty slots adds one child for each pair. -/
theorem countP_fillSlots {mn : UInt8} : ∀ {ps : List (UInt8 × Option Node)}
    {slots : List (Option Node)}, (ps.map Prod.fst).Nodup → (∀ q ∈ ps, mn ≤ q.1) →
      (∀ q ∈ ps, q.2.isSome) → (∀ q ∈ ps, slots[q.1.toNat - mn.toNat]? = some none) →
      (fillSlots mn slots ps).countP (·.isSome) = slots.countP (·.isSome) + ps.length
  | [], _, _, _, _, _ => rfl
  | (c, p) :: ps, slots, hnd, hle, hsome, hnone => by
    rw [List.map_cons, List.nodup_cons] at hnd
    obtain ⟨hlt, hget⟩ := List.getElem?_eq_some_iff.mp (hnone (c, p) List.mem_cons_self)
    rw [fillSlots, countP_fillSlots hnd.2 (fun q hq => hle q (List.mem_cons_of_mem _ hq))
      (fun q hq => hsome q (List.mem_cons_of_mem _ hq)), List.countP_set hlt, hget,
      hsome (c, p) List.mem_cons_self, List.length_cons]
    · simp; omega
    · intro q hq
      rw [List.getElem?_set_ne, hnone q (List.mem_cons_of_mem _ hq)]
      intro heq
      have h1 : mn.toNat ≤ c.toNat := UInt8.le_iff_toNat_le.mp (hle (c, p) List.mem_cons_self)
      have h2 := UInt8.le_iff_toNat_le.mp (hle q (List.mem_cons_of_mem _ hq))
      have : q.1 = c := UInt8.toNat_inj.mp (by omega)
      exact hnd.1 (List.mem_map.mpr ⟨q, hq, this⟩)

theorem mem_fillSlots {mn : UInt8} {x : Node} : ∀ {ps : List (UInt8 × Option Node)}
    {slots : List (Option Node)}, some x ∈ fillSlots mn slots ps →
      some x ∈ slots ∨ some x ∈ ps.map Prod.snd
  | [], _, h => Or.inl h
  | (c, p) :: ps, slots, h => by
    rw [fillSlots] at h
    rcases mem_fillSlots h with h | h
    · rcases List.mem_or_eq_of_mem_set h with h | h
      · exact Or.inl h
      · exact Or.inr (by simp [h])
    · exact Or.inr (List.mem_cons_of_mem _ h)

/-! ## Reading the two kinds of array -/

theorem next_sparse {n : Node} {cs : List UInt8} (hu : n.u = .sparse cs) (c : UInt8) :
    n.next c = (cs.idxOf? c).bind fun i => (n.child[i]?).join := by
  rw [Node.next, nnNodeNext, hu]; rfl

theorem next_dense {n : Node} {mn mx : UInt8} {nbr : UInt16} (hu : n.u = .dense mn mx nbr)
    (c : UInt8) : n.next c =
      if c < mn ∨ mx < c then none else (n.child[c.toNat - mn.toNat]?).join := by
  rw [Node.next, nnNodeNext, hu]
  simp only
  split <;> rfl

/-- In a sparse array in shape a label has a child as soon as it is listed. -/
theorem next_sparse_eq_none {n : Node} {cs : List UInt8} (hu : n.u = .sparse cs)
    (h : BranchOk n.u n.child) {c : UInt8} (hc : n.next c = none) : c ∉ cs := by
  intro hmem
  simp only [BranchOk, hu] at h
  obtain ⟨i, hi⟩ := Option.ne_none_iff_exists'.mp (mt List.idxOf?_eq_none_iff.mp (not_not.mpr hmem))
  obtain ⟨hlt, -, -⟩ := List.idxOf?_eq_some_iff.mp hi
  have hlt' : i < n.child.length := by rw [h.2.2.1]; exact hlt
  have hs := h.2.2.2.2 _ (List.getElem_mem hlt')
  rw [next_sparse hu, hi, Option.bind_some, List.getElem?_eq_getElem hlt', Option.join_some] at hc
  rw [hc] at hs
  exact absurd hs (by simp)

theorem idxOf?_append_of_notMem {cs : List UInt8} {c c' : UInt8} (h : c' ≠ c) :
    (cs ++ [c]).idxOf? c' = cs.idxOf? c' := by
  induction cs with
  | nil => simp [Ne.symm h]
  | cons x xs ih => rw [List.cons_append, List.idxOf?_cons, List.idxOf?_cons, ih]

theorem idxOf?_append_self {cs : List UInt8} {c : UInt8} (h : c ∉ cs) :
    (cs ++ [c]).idxOf? c = some cs.length := by
  induction cs with
  | nil => simp
  | cons x xs ih =>
    rw [List.mem_cons, not_or] at h
    rw [List.cons_append, List.idxOf?_cons, ih h.2]
    simp [Ne.symm h.1]

/-! ## One label more -/

/-- **`n'` is `n` with the empty slot `i` for the label `c`.** -/
structure Grown (n : Node) (c : UInt8) (n' : Node) (i : Nat) : Prop where
  pre : n'.pre = n.pre
  slot : nnNodeNext n' c = some i
  lt : i < n'.child.length
  other : ∀ c' ≠ c, n'.next c' = n.next c'
  filled : ∀ ch, BranchOk n'.u (n'.child.set i (some ch))
  old : ∀ p, some p ∈ n'.child → some p ∈ n.child

theorem growChild_sparse {n : Node} {cs : List UInt8} {c : UInt8} (hu : n.u = .sparse cs)
    (hok : BranchOk n.u n.child) (hc : n.next c = none) (h0 : c ≠ 0)
    (hlt : cs.length < sparseMax) : Grown n c (growChild n c).1 (growChild n c).2 := by
  have hnot := next_sparse_eq_none hu hok hc
  simp only [BranchOk, hu] at hok
  obtain ⟨hnd, -, hlen, hz, hsome⟩ := hok
  simp only [growChild, hu, if_pos hlt]
  refine ⟨rfl, idxOf?_append_self hnot, by simp [hlen], ?_, ?_, ?_⟩
  · intro c' hne
    rw [next_sparse rfl, next_sparse hu, idxOf?_append_of_notMem hne]
    cases hi : cs.idxOf? c' with
    | none => rfl
    | some i =>
      obtain ⟨hi', -, -⟩ := List.idxOf?_eq_some_iff.mp hi
      rw [Option.bind_some, Option.bind_some, List.getElem?_append_left (by rw [hlen]; exact hi')]
  · intro ch
    refine ⟨?_, by simp; omega, by simp [hlen], by simp [hz, Ne.symm h0], ?_⟩
    · exact List.nodup_append.mpr ⟨hnd, by simp, by
        intro a ha b hb
        rw [List.mem_singleton.mp hb]
        exact fun hab => hnot (hab ▸ ha)⟩
    · intro p hp
      rw [← hlen, List.set_append_right _ _ (Nat.le_refl _)] at hp
      rcases List.mem_append.mp hp with hp | hp
      · exact hsome p hp
      · simp only [Nat.sub_self, List.set_cons_zero, List.mem_singleton] at hp
        rw [hp]; rfl
  · intro p hp
    simpa using hp

theorem growChild_full {n : Node} {cs : List UInt8} {c : UInt8} (hu : n.u = .sparse cs)
    (hok : BranchOk n.u n.child) (hc : n.next c = none) (h0 : c ≠ 0)
    (hge : ¬ cs.length < sparseMax) : Grown n c (growChild n c).1 (growChild n c).2 := by
  have hnot := next_sparse_eq_none hu hok hc
  simp only [BranchOk, hu] at hok
  obtain ⟨hnd, hle, hlen, hz, hsome⟩ := hok
  have hcs : cs.length = 8 := by unfold sparseMax at hle hge; omega
  obtain ⟨hmin, hminmem⟩ := newMin_spec cs c
  obtain ⟨hmax, hmaxmem⟩ := newMax_spec cs c
  simp only [growChild, hu, if_neg hge]
  generalize hmn : lesser c (cs.foldl lesser 255) = mn at *
  generalize hmx : greater c (cs.foldl greater 0) = mx at *
  have hmnx : mn ≤ mx := UInt8.le_trans (hmin c List.mem_cons_self) (hmax c List.mem_cons_self)
  set slots : List (Option Node) := List.replicate (mx.toNat - mn.toNat + 1) none with hslots
  set ps := cs.zip n.child with hps
  have hfst : ps.map Prod.fst = cs := List.map_fst_zip (by rw [hlen])
  have hsnd : ps.map Prod.snd = n.child := List.map_snd_zip (by rw [hlen])
  have hndps : (ps.map Prod.fst).Nodup := hfst ▸ hnd
  have hmemcs : ∀ q ∈ ps, q.1 ∈ cs := fun q hq => hfst ▸ List.mem_map_of_mem hq
  have hleps : ∀ q ∈ ps, mn ≤ q.1 := fun q hq => hmin _ (List.mem_cons_of_mem c (hmemcs q hq))
  have hltslot : ∀ x ∈ c :: cs, x.toNat - mn.toNat < mx.toNat - mn.toNat + 1 := fun x hx => by
    have := UInt8.le_iff_toNat_le.mp (hmax x hx)
    omega
  -- a label of the old array keeps its child, every other slot is empty
  have hget : ∀ x p, (x, p) ∈ ps → (fillSlots mn slots ps)[x.toNat - mn.toNat]? = some p :=
    fun x p hxp => getElem?_fillSlots_of_mem hndps hleps hxp (by
      rw [hslots, List.length_replicate]
      exact hltslot x (List.mem_cons_of_mem c (hmemcs _ hxp)))
  have hempty : ∀ x, mn ≤ x → x ≤ mx → x ∉ cs →
      (fillSlots mn slots ps)[x.toNat - mn.toNat]? = some none := by
    intro x hx1 hx2 hx
    rw [getElem?_fillSlots_of_ne, hslots, List.getElem?_replicate, if_pos]
    · rw [UInt8.le_iff_toNat_le] at hx1 hx2; omega
    · intro q hq heq
      have h1 := UInt8.le_iff_toNat_le.mp (hleps q hq)
      have : q.1 = x := UInt8.toNat_inj.mp (by rw [UInt8.le_iff_toNat_le] at hx1; omega)
      exact hx (this ▸ hmemcs q hq)
  have hcnot : ¬ (c < mn ∨ mx < c) := by
    rw [not_or, UInt8.not_lt, UInt8.not_lt]
    exact ⟨hmin c List.mem_cons_self, hmax c List.mem_cons_self⟩
  -- the end slots are taken: by an old label or by the new one
  have hend : ∀ (x : UInt8) ch, x ∈ c :: cs → ∃ ch', ((fillSlots mn slots ps).set
      (c.toNat - mn.toNat) (some ch))[x.toNat - mn.toNat]? = some (some ch') := by
    intro x ch hx
    by_cases hxc : x = c
    · rw [hxc]
      refine ⟨ch, List.getElem?_set_self ?_⟩
      rw [length_fillSlots, hslots, List.length_replicate]
      exact hltslot c List.mem_cons_self
    · have hxcs := (List.mem_cons.mp hx).resolve_left hxc
      obtain ⟨p, hp⟩ : ∃ p, (x, p) ∈ ps := by
        rw [← hfst] at hxcs
        obtain ⟨q, hq, rfl⟩ := List.mem_map.mp hxcs
        exact ⟨q.2, hq⟩
      obtain ⟨ch', rfl⟩ := Option.isSome_iff_exists.mp
        (hsome p (hsnd ▸ List.mem_map.mpr ⟨(x, p), hp, rfl⟩))
      refine ⟨ch', ?_⟩
      rw [List.getElem?_set_ne, hget x _ hp]
      intro heq
      have h1 := UInt8.le_iff_toNat_le.mp (hmin x hx)
      have h2 := UInt8.le_iff_toNat_le.mp (hmin c List.mem_cons_self)
      exact hxc (UInt8.toNat_inj.mp (by omega))
  refine ⟨rfl, ?_, ?_, ?_, ?_, ?_⟩
  · simp only [nnNodeNext, if_neg hcnot]
  · rw [length_fillSlots, hslots, List.length_replicate]
    exact hltslot c List.mem_cons_self
  · intro c' hne
    rw [next_dense rfl, next_sparse hu]
    cases hi : cs.idxOf? c' with
    | none =>
      have hc' := List.idxOf?_eq_none_iff.mp hi
      split
      · rfl
      · next h =>
        rw [not_or, UInt8.not_lt, UInt8.not_lt] at h
        rw [hempty c' h.1 h.2 hc']; rfl
    | some i =>
      obtain ⟨hi', hci, -⟩ := List.idxOf?_eq_some_iff.mp hi
      have hi'' : i < n.child.length := by rw [hlen]; exact hi'
      have hmem : c' ∈ c :: cs := List.mem_cons_of_mem c (hci ▸ List.getElem_mem hi')
      have hzip : (c', n.child[i]) ∈ ps := by
        have hip : i < ps.length := by rw [hps, List.length_zip, hlen, Nat.min_self]; exact hi'
        have : ps[i] = (c', n.child[i]) := by simp only [hps, List.getElem_zip, hci]
        exact this ▸ List.getElem_mem hip
      rw [if_neg, hget _ _ hzip, Option.bind_some, List.getElem?_eq_getElem hi'']
      rw [not_or, UInt8.not_lt, UInt8.not_lt]
      exact ⟨hmin c' hmem, hmax c' hmem⟩
  · intro ch
    refine ⟨?_, hmnx, ?_, ?_, ?_, ?_, ?_⟩
    · rintro rfl
      rcases List.mem_cons.mp hminmem with h | h
      · exact h0 h.symm
      · exact hz h
    · rw [List.length_set, length_fillSlots, hslots, List.length_replicate]
    · rw [hcs]; decide
    · have hclt : c.toNat - mn.toNat < (fillSlots mn slots ps).length := by
        rw [length_fillSlots, hslots, List.length_replicate]
        exact hltslot c List.mem_cons_self
      have hcnone := hempty c (hmin c List.mem_cons_self) (hmax c List.mem_cons_self) hnot
      rw [List.getElem?_eq_getElem hclt, Option.some.injEq] at hcnone
      rw [List.countP_set hclt, hcnone, countP_fillSlots hndps hleps
        (fun q hq => hsome _ (hsnd ▸ List.mem_map_of_mem hq))
        (fun q hq => by
          rw [hslots, List.getElem?_replicate, if_pos]
          exact hltslot _ (List.mem_cons_of_mem c (hmemcs q hq))),
        hslots, List.countP_replicate, hps, List.length_zip, hlen, Nat.min_self, hcs]
      rfl
    · have := hend mn ch hminmem
      rwa [Nat.sub_self] at this
    · exact hend mx ch hmaxmem
  · intro p hp
    rcases mem_fillSlots hp with h | h
    · exact absurd (List.eq_of_mem_replicate h) (by simp)
    · exact hsnd ▸ h

/-- **The dense array with room for one label more**, once the label has its child: the range still
ends inside the array and one more child counts. -/
theorem growChild_dense_slots {n : Node} {mn mx : UInt8} {nbr : UInt16} {c : UInt8}
    (hu : n.u = .dense mn mx nbr) (hok : LabelsOk n.u n.child) (hc : n.next c = none) (h0 : c ≠ 0)
    (ch : Node) : ∃ mn' mx', (growChild n c).1.u = .dense mn' mx' (nbr + 1) ∧ mn' ≠ 0 ∧ mn' ≤ mx' ∧
      ((growChild n c).1.child.set (growChild n c).2 (some ch)).length =
        mx'.toNat - mn'.toNat + 1 ∧
      ((growChild n c).1.child.set (growChild n c).2 (some ch)).countP (·.isSome) =
        n.child.countP (·.isSome) + 1 := by
  rw [next_dense hu] at hc
  simp only [LabelsOk, hu] at hok
  obtain ⟨hmn0, hle, hlen, -⟩ := hok
  rw [UInt8.le_iff_toNat_le] at hle
  simp only [growChild, hu, List.length_set]
  split
  · -- the range grows to the left
    next hlt =>
    have hlt' := UInt8.lt_iff_toNat_lt.mp hlt
    refine ⟨c, mx, rfl, h0, UInt8.le_iff_toNat_le.mpr (by omega), ?_, ?_⟩
    · simp only [List.length_append, List.length_replicate]; omega
    · obtain ⟨k, hk⟩ : ∃ k, mn.toNat - c.toNat = k + 1 := ⟨mn.toNat - c.toNat - 1, by omega⟩
      rw [hk, List.replicate_succ, List.cons_append, List.set_cons_zero, List.countP_cons,
        List.countP_append, List.countP_replicate]
      simp
  · split
    · -- the range grows to the right
      next hge hlt =>
      have hlt' := UInt8.lt_iff_toNat_lt.mp hlt
      have hge' := UInt8.le_iff_toNat_le.mp (UInt8.not_lt.mp hge)
      refine ⟨mn, c, rfl, hmn0, UInt8.le_iff_toNat_le.mpr (by omega), ?_, ?_⟩
      · simp only [List.length_append, List.length_replicate]; omega
      · rw [List.set_append_right _ _ (by omega), List.countP_append,
          List.countP_set (by simp; omega)]
        simp [List.countP_replicate]
    · -- the slot is inside the range
      next hge hle' =>
      have hge' := UInt8.le_iff_toNat_le.mp (UInt8.not_lt.mp hge)
      have hle'' := UInt8.le_iff_toNat_le.mp (UInt8.not_lt.mp hle')
      rw [if_neg (not_or.mpr ⟨hge, hle'⟩)] at hc
      have hclt : c.toNat - mn.toNat < n.child.length := by omega
      rw [List.getElem?_eq_getElem hclt, Option.join_some] at hc
      refine ⟨mn, mx, rfl, hmn0, UInt8.le_iff_toNat_le.mpr hle, hlen, ?_⟩
      rw [List.countP_set hclt, hc]
      simp

theorem growChild_dense {n : Node} {mn mx : UInt8} {nbr : UInt16} {c : UInt8}
    (hu : n.u = .dense mn mx nbr) (hok : BranchOk n.u n.child) (hc : n.next c = none)
    (h0 : c ≠ 0) : Grown n c (growChild n c).1 (growChild n c).2 := by
  have hslots := growChild_dense_slots hu hok.labels hc h0
  rw [next_dense hu] at hc
  simp only [BranchOk, hu] at hok
  obtain ⟨hmn0, hle, hlen, h8, hnbr, ⟨cf, hcf⟩, ⟨cl, hcl⟩⟩ := hok
  have hlen256 : n.child.length ≤ 256 := by have := mx.toNat_lt; omega
  have hcount : n.child.countP (·.isSome) ≤ n.child.length := List.countP_le_length
  have hnbr1 : (nbr + 1).toNat = nbr.toNat + 1 := by
    rw [UInt16.toNat_add]; simp; omega
  rw [UInt8.le_iff_toNat_le] at hle
  simp only [growChild, hu] at hslots ⊢
  split
  · -- the range grows to the left
    next hlt =>
    have hlt' := UInt8.lt_iff_toNat_lt.mp hlt
    refine ⟨rfl, ?_, ?_, ?_, ?_, ?_⟩
    · simp only [nnNodeNext, Nat.sub_self]
      rw [if_neg]
      rw [not_or, UInt8.not_lt, UInt8.not_lt, UInt8.le_iff_toNat_le, UInt8.le_iff_toNat_le]
      omega
    · simp only [List.length_append, List.length_replicate]; omega
    · intro c' hne
      have hne' : c'.toNat ≠ c.toNat := fun h => hne (UInt8.toNat_inj.mp h)
      rw [next_dense rfl, next_dense hu]
      simp only [UInt8.lt_iff_toNat_lt]
      by_cases h1 : c'.toNat < c.toNat ∨ mx.toNat < c'.toNat
      · rw [if_pos h1, if_pos (by omega)]
      · rw [if_neg h1]
        by_cases h2 : c'.toNat < mn.toNat
        · rw [if_pos (Or.inl h2), List.getElem?_append_left (by
            rw [List.length_replicate]; omega), List.getElem?_replicate, if_pos (by omega)]
          rfl
        · rw [if_neg (by omega), List.getElem?_append_right (by
            rw [List.length_replicate]; omega), List.length_replicate]
          congr 2
          omega
    · intro ch
      obtain ⟨_, _, heq, hmn', hmnx, hlen', hcount'⟩ := hslots ch
      simp only [if_pos hlt] at heq hlen' hcount'
      cases heq
      refine ⟨hmn', hmnx, hlen', by omega, by rw [hnbr1, hnbr]; exact hcount'.symm,
        ⟨ch, ?_⟩, ⟨cl, ?_⟩⟩
      · rw [List.getElem?_set_self]
        simp only [List.length_append, List.length_replicate]; omega
      · rw [List.getElem?_set_ne (by omega), List.getElem?_append_right (by simp; omega),
          List.length_replicate, ← hcl]
        congr 1
        omega
    · intro p hp
      simpa using hp
  · split
    · -- the range grows to the right
      next hge hlt =>
      have hlt' := UInt8.lt_iff_toNat_lt.mp hlt
      refine ⟨rfl, ?_, ?_, ?_, ?_, ?_⟩
      · simp only [nnNodeNext]
        rw [if_neg]
        rw [not_or, UInt8.not_lt, UInt8.not_lt, UInt8.le_iff_toNat_le, UInt8.le_iff_toNat_le]
        omega
      · simp only [List.length_append, List.length_replicate]; omega
      · intro c' hne
        have hne' : c'.toNat ≠ c.toNat := fun h => hne (UInt8.toNat_inj.mp h)
        rw [next_dense rfl, next_dense hu]
        simp only [UInt8.lt_iff_toNat_lt]
        by_cases h1 : c'.toNat < mn.toNat ∨ c.toNat < c'.toNat
        · rw [if_pos h1, if_pos (by omega)]
        · rw [if_neg h1]
          by_cases h2 : mx.toNat < c'.toNat
          · rw [if_pos (Or.inr h2), List.getElem?_append_right (by omega), List.getElem?_replicate,
              if_pos (by omega)]
            rfl
          · rw [if_neg (by omega), List.getElem?_append_left (by omega)]
      · intro ch
        obtain ⟨_, _, heq, hmn', hmnx, hlen', hcount'⟩ := hslots ch
        simp only [if_neg hge, if_pos hlt] at heq hlen' hcount'
        cases heq
        refine ⟨hmn', hmnx, hlen', by omega, by rw [hnbr1, hnbr]; exact hcount'.symm,
          ⟨cf, ?_⟩, ⟨ch, ?_⟩⟩
        · rw [List.getElem?_set_ne (by omega), List.getElem?_append_left (by omega), hcf]
        · rw [List.getElem?_set_self]
          simp only [List.length_append, List.length_replicate]; omega
      · intro p hp
        simpa using hp
    · -- the slot is inside the range
      next hge hle' =>
      have hge' := UInt8.le_iff_toNat_le.mp (UInt8.not_lt.mp hge)
      have hle'' := UInt8.le_iff_toNat_le.mp (UInt8.not_lt.mp hle')
      rw [if_neg (not_or.mpr ⟨hge, hle'⟩)] at hc
      have hclt : c.toNat - mn.toNat < n.child.length := by omega
      have hcnone : n.child[c.toNat - mn.toNat] = none := by
        rwa [List.getElem?_eq_getElem hclt, Option.join_some] at hc
      have hcnone' : n.child[c.toNat - mn.toNat]? = some none := by
        rw [List.getElem?_eq_getElem hclt, hcnone]
      refine ⟨rfl, ?_, hclt, ?_, ?_, fun p hp => hp⟩
      · simp only [nnNodeNext]
        rw [if_neg (not_or.mpr ⟨hge, hle'⟩)]
      · intro c' _
        rw [next_dense rfl, next_dense hu]
      · intro ch
        obtain ⟨_, _, heq, hmn', hmnx, hlen', hcount'⟩ := hslots ch
        simp only [if_neg hge, if_neg hle'] at heq hlen' hcount'
        cases heq
        refine ⟨hmn', hmnx, hlen', by omega, by rw [hnbr1, hnbr]; exact hcount'.symm,
          ⟨cf, ?_⟩, ⟨cl, ?_⟩⟩
        · rw [List.getElem?_set_ne, hcf]
          intro (h : c.toNat - mn.toNat = 0)
          rw [h, hcf] at hcnone'
          exact absurd hcnone' (by simp)
        · rw [List.getElem?_set_ne, hcl]
          intro (h : c.toNat - mn.toNat = mx.toNat - mn.toNat)
          rw [h, hcl] at hcnone'
          exact absurd hcnone' (by simp)

/-- **`growChild` makes room for one label and changes no other.** -/
theorem growChild_grown {n : Node} {c : UInt8} (hok : BranchOk n.u n.child)
    (hc : n.next c = none) (h0 : c ≠ 0) : Grown n c (growChild n c).1 (growChild n c).2 := by
  cases hu : n.u with
  | sparse cs =>
    by_cases hlt : cs.length < sparseMax
    · exact growChild_sparse hu hok hc h0 hlt
    · exact growChild_full hu hok hc h0 hlt
  | dense mn mx nbr => exact growChild_dense hu hok hc h0

/-- The new node of a conversion has neither list nor count. -/
theorem growChild_socks {n : Node} (c : UInt8) (hok : NodeOk n) : SocksOk (growChild n c).1 := by
  unfold growChild
  split
  · split
    · exact hok.socks
    · exact rfl
  · split
    · exact hok.socks
    · split
      · exact hok.socks
      · exact hok.socks

/-- The subscribers of the grown node: a full sparse node without subscribers has nothing to
lose. -/
theorem growChild_live {n : Node} {c : UInt8} (hok : NodeOk n)
    (h : n.type = sparseMax → n.refcount = 0) : (growChild n c).1.live = n.live := by
  unfold growChild
  split
  · next cs hu =>
    split
    · rfl
    · next hlt =>
      have hb := hok.branch
      simp only [BranchOk, hu] at hb
      have ht : n.type = sparseMax := by
        rw [Node.type, hu]
        exact Nat.le_antisymm hb.2.1 (Nat.not_lt.mp hlt)
      exact (live_of_refcount (h ht)).symm
  · split
    · rfl
    · split
      · rfl
      · rfl

end DoubleDecker.Trie
