import DoubleDecker.Trie.Subscribe

/-!
# Trie/Prune — a child array shrunk by one label

`prune` closes the gap in the sparse labels, trims the dense range, or converts a dense array with
eight children left to a sparse one.  Seen through `Node.next` one label loses its child and no
other label changes: that is `Pruned`.
-/

namespace DoubleDecker.Trie

/-- **`m` is `n` without the child of the label `c`.** -/
structure Pruned (n : Node) (c : UInt8) (m : Node) : Prop where
  pre : m.pre = n.pre
  live : m.live = n.live
  socks : SocksOk m
  gone : m.next c = none
  other : ∀ c' ≠ c, m.next c' = n.next c'
  branch : BranchOk m.u m.child
  old : ∀ p, some p ∈ m.child → some p ∈ n.child
  busy : m.refcount = 0 → m.child ≠ []

theorem Pruned.wf_subs {n m : Node} {c : UInt8} (hp : Pruned n c m) (hn : WF n) :
    WF m ∧ (∀ rest, subs m (n.pre ++ c :: rest) = []) ∧
      ∀ key, (∀ rest, key ≠ n.pre ++ c :: rest) → subs m key = subs n key := by
  refine ⟨⟨⟨?_, ?_, hp.socks, hp.branch, hp.busy⟩, fun p h => hn.child (hp.old p h)⟩, ?_, ?_⟩
  · rw [hp.pre]; exact hn.ok.pre_le
  · rw [hp.pre]; exact hn.ok.pre_nul
  · intro rest
    rw [← hp.pre, subs_pre_cons, hp.gone]
    rfl
  · intro key hkey
    rcases key_cases n key with h | rfl | ⟨c', rest, rfl⟩
    · rw [subs_off h, subs_off (hp.pre ▸ h)]
    · rw [subs_pre, ← hp.pre, subs_pre, hp.live]
    · have hne : c' ≠ c := by rintro rfl; exact hkey rest rfl
      rw [subs_pre_cons, ← hp.pre, subs_pre_cons, hp.other c' hne]

/-! ## A sparse array with one slot taken out -/

theorem idxOf?_eraseIdx : ∀ {cs : List UInt8} {child : List (Option Node)} {c : UInt8} {i : Nat},
    cs.Nodup → cs.idxOf? c = some i → ∀ c',
      ((cs.eraseIdx i).idxOf? c').bind (fun j => ((child.eraseIdx i)[j]?).join) =
        if c' = c then none else (cs.idxOf? c').bind fun j => (child[j]?).join
  | [], _, _, _, _, h, _ => by simp at h
  | x :: cs, child, c, i, hnd, h, c' => by
    rw [List.nodup_cons] at hnd
    rw [List.idxOf?_cons] at h
    by_cases hx : x = c
    · subst hx
      simp only [BEq.rfl, if_true, Option.some.injEq] at h
      subst h
      rw [List.eraseIdx_cons_zero, List.idxOf?_cons]
      by_cases hc : c' = x
      · subst hc
        rw [if_pos rfl, List.idxOf?_eq_none_iff.mpr hnd.1]
        rfl
      · rw [if_neg hc, if_neg (by simpa using Ne.symm hc)]
        cases cs.idxOf? c' with
        | none => rfl
        | some j => cases child <;> simp
    · rw [if_neg (by simpa using hx)] at h
      obtain ⟨i', hi', rfl⟩ := Option.map_eq_some_iff.mp h
      rw [List.eraseIdx_cons_succ, List.idxOf?_cons, List.idxOf?_cons]
      by_cases hc : x = c'
      · subst hc
        simp only [BEq.rfl, if_true, Option.bind_some, if_neg hx]
        cases child <;> simp
      · have hc' : (x == c') = false := by simpa using hc
        have ih := @idxOf?_eraseIdx cs child.tail c i' hnd.2 hi' c'
        simp only [hc', Bool.false_eq_true, if_false, Option.bind_map, Function.comp_def]
        cases child with
        | nil => simp
        | cons p child => simpa using ih

/-- **One label less** keeps a sparse array in shape. -/
theorem BranchOk.eraseIdx {cs : List UInt8} {child : List (Option Node)} {i : Nat}
    (h : BranchOk (.sparse cs) child) (hi : i < cs.length) :
    BranchOk (.sparse (cs.eraseIdx i)) (child.eraseIdx i) := by
  obtain ⟨hnd, hle, hlen, hz, hsome⟩ := h
  refine ⟨hnd.sublist (List.eraseIdx_sublist _ _), ?_, ?_, ?_, ?_⟩
  · exact (List.eraseIdx_sublist cs i).length_le.trans hle
  · rw [List.length_eraseIdx_of_lt hi, List.length_eraseIdx_of_lt (by omega), hlen]
  · exact fun h => hz ((List.eraseIdx_sublist cs i).subset h)
  · exact fun p hp => hsome p ((List.eraseIdx_sublist child i).subset hp)

theorem prune_sparse {n : Node} {cs : List UInt8} {c : UInt8} {i : Nat} (hn : WF n)
    (hu : n.u = .sparse cs) (hc : nnNodeNext n c = some i)
    (hbusy : n.refcount = 0 → cs.length ≠ 1) :
    Pruned n c { n with u := .sparse (cs.eraseIdx i), child := n.child.eraseIdx i } := by
  have hb := hn.ok.branch
  rw [hu] at hb
  obtain ⟨hnd, -, hlen, -, -⟩ := hb
  simp only [nnNodeNext, hu] at hc
  obtain ⟨hi, -, -⟩ := List.idxOf?_eq_some_iff.mp hc
  have hnext : ∀ c', Node.next { n with
      u := .sparse (cs.eraseIdx i), child := n.child.eraseIdx i } c' =
      if c' = c then none else n.next c' := fun c' => by
    rw [next_sparse rfl, next_sparse hu, idxOf?_eraseIdx hnd hc]
  refine ⟨rfl, rfl, hn.ok.socks, by rw [hnext, if_pos rfl], fun c' h => by rw [hnext, if_neg h],
    BranchOk.eraseIdx (hu ▸ hn.ok.branch) hi, ?_, ?_⟩
  · exact fun p hp => (List.eraseIdx_sublist n.child i).subset hp
  · intro h0 hnil
    have := congrArg List.length hnil
    rw [List.length_eraseIdx_of_lt (by omega), List.length_nil] at this
    have := hbusy h0
    omega

/-! ## A dense array trimmed -/

theorem firstChild_spec {slots : List (Option Node)} (h : 0 < slots.countP (·.isSome)) :
    ∃ ch, slots[firstChild slots]? = some (some ch) ∧
      ∀ j < firstChild slots, slots[j]? = some none := by
  obtain ⟨p, hp, hsome⟩ := List.countP_pos_iff.mp h
  have hlt : firstChild slots < slots.length := List.findIdx_lt_length_of_exists ⟨p, hp, hsome⟩
  obtain ⟨ch, hch⟩ := Option.isSome_iff_exists.mp
    (List.findIdx_getElem (p := fun p : Option Node => p.isSome) (w := hlt))
  refine ⟨ch, by rw [List.getElem?_eq_getElem hlt]; exact congrArg some hch, fun j hj => ?_⟩
  have hj' := List.not_of_lt_findIdx hj
  rw [List.getElem?_eq_getElem (Nat.lt_trans hj hlt)]
  simpa using hj'

theorem lastChild_spec {slots : List (Option Node)} (h : 0 < slots.countP (·.isSome)) :
    lastChild slots < slots.length ∧ (∃ ch, slots[lastChild slots]? = some (some ch)) ∧
      ∀ j, lastChild slots < j → j < slots.length → slots[j]? = some none := by
  have hrev : 0 < slots.reverse.countP (·.isSome) := by rwa [List.countP_reverse]
  obtain ⟨ch, hch, hnone⟩ := firstChild_spec hrev
  have hlt := (List.getElem?_eq_some_iff.mp hch).1
  rw [List.length_reverse] at hlt
  have hlast : lastChild slots = slots.length - 1 - firstChild slots.reverse := rfl
  refine ⟨by omega, ⟨ch, ?_⟩, fun j hj hj' => ?_⟩
  · rwa [List.getElem?_reverse hlt, ← hlast] at hch
  · have hk := hnone (slots.length - 1 - j) (by omega)
    rw [List.getElem?_reverse (by omega)] at hk
    rwa [show slots.length - 1 - (slots.length - 1 - j) = j by omega] at hk

/-- Taking a slot's child leaves one child less. -/
theorem countP_set_none {slots : List (Option Node)} {i : Nat} {ch : Node}
    (h : slots[i]? = some (some ch)) :
    (slots.set i none).countP (·.isSome) + 1 = slots.countP (·.isSome) := by
  obtain ⟨hlt, hget⟩ := List.getElem?_eq_some_iff.mp h
  have : 0 < slots.countP (·.isSome) :=
    List.countP_pos_iff.mpr ⟨some ch, List.mem_of_getElem? h, rfl⟩
  rw [List.countP_set hlt, hget]
  simp
  omega

theorem countP_of_none {slots : List (Option Node)}
    (h : ∀ j < slots.length, slots[j]? = some none) :
    slots.countP (·.isSome) = 0 := by
  rw [List.countP_eq_zero]
  intro p hp
  obtain ⟨j, hj, rfl⟩ := List.mem_iff_getElem.mp hp
  have := h j hj
  rw [List.getElem?_eq_getElem hj, Option.some.injEq] at this
  simp [this]

/-- The empty slots in front count nothing. -/
theorem countP_drop_firstChild {slots : List (Option Node)} (h : 0 < slots.countP (·.isSome)) :
    (slots.drop (firstChild slots)).countP (·.isSome) = slots.countP (·.isSome) := by
  obtain ⟨ch, hch, hfront⟩ := firstChild_spec h
  obtain ⟨hlt, -⟩ := List.getElem?_eq_some_iff.mp hch
  have hnone : (slots.take (firstChild slots)).countP (·.isSome) = 0 :=
      countP_of_none fun j hj => by
    rw [List.length_take] at hj
    rw [List.getElem?_take_of_lt (by omega), hfront j (by omega)]
  conv_rhs => rw [← List.take_append_drop (firstChild slots) slots]
  rw [List.countP_append, hnone, Nat.zero_add]

/-- Nor do those at the end. -/
theorem countP_take_lastChild {slots : List (Option Node)} (h : 0 < slots.countP (·.isSome)) :
    (slots.take (lastChild slots + 1)).countP (·.isSome) = slots.countP (·.isSome) := by
  obtain ⟨hlt, -, hback⟩ := lastChild_spec h
  have hnone : (slots.drop (lastChild slots + 1)).countP (·.isSome) = 0 :=
    countP_of_none fun j hj => by
      rw [List.length_drop] at hj
      rw [List.getElem?_drop, hback _ (by omega) (by omega)]
  conv_rhs => rw [← List.take_append_drop (lastChild slots + 1) slots]
  rw [List.countP_append, hnone]
  rfl

/-- The dense node `prune` returns while more than eight children are left. -/
theorem prune_dense {n : Node} {mn mx c : UInt8} {nbr : UInt16} {i : Nat} {ch : Node} (hn : WF n)
    (hu : n.u = .dense mn mx nbr) (hc : nnNodeNext n c = some i) (hch : n.at i = some ch)
    (hnbr : sparseMax + 1 < nbr.toNat) :
    ∃ m, prune (n.setChild i none) i c = some (some m) ∧ Pruned n c m := by
  have hb := hn.ok.branch
  simp only [BranchOk, hu] at hb
  obtain ⟨hmn0, hle, hlen, -, hcount, hfst, hlst⟩ := hb
  simp only [nnNodeNext, hu, Option.ite_none_left_eq_some, not_or, UInt8.not_lt,
    Option.some.injEq, UInt8.le_iff_toNat_le] at hc
  obtain ⟨⟨hge, hle'⟩, rfl⟩ := hc
  rw [UInt8.le_iff_toNat_le] at hle
  have hget : n.child[c.toNat - mn.toNat]? = some (some ch) := Option.join_eq_some_iff.mp hch
  set slots := n.child.set (c.toNat - mn.toNat) none with hslots
  have hcount' : slots.countP (·.isSome) + 1 = nbr.toNat := by
    rw [hcount]; exact countP_set_none hget
  have hlen' : slots.length = mx.toNat - mn.toNat + 1 := by rw [hslots, List.length_set, hlen]
  have hself : slots[c.toNat - mn.toNat]? = some none :=
    List.getElem?_set_self (by omega)
  have hne : ∀ j, j ≠ c.toNat - mn.toNat → slots[j]? = n.child[j]? := fun j hj =>
    List.getElem?_set_ne (Ne.symm hj)
  have hold : ∀ p, some p ∈ slots → some p ∈ n.child := fun p hp =>
    (List.mem_or_eq_of_mem_set hp).resolve_right (by simp)
  have hnbr1 : (nbr - 1).toNat + 1 = nbr.toNat := by
    have h1 : (1 : UInt16) ≤ nbr := by rw [UInt16.le_iff_toNat_le]; simp; omega
    rw [UInt16.toNat_sub_of_le _ _ h1]
    simp; omega
  have hnbr8 : sparseMax < (nbr - 1).toNat := by omega
  have hcnt : (nbr - 1).toNat = slots.countP (·.isSome) := by omega
  obtain ⟨cf, hcf⟩ := hfst
  obtain ⟨cl, hcl⟩ := hlst
  have hu' : (n.setChild (c.toNat - mn.toNat) none).u = .dense mn mx nbr := hu
  have hchild' : (n.setChild (c.toNat - mn.toNat) none).child = slots := rfl
  -- the children of the node before the trim
  have hslot : ∀ c' : UInt8, c' ≠ c → n.next c' =
      if c' < mn ∨ mx < c' then none else (slots[c'.toNat - mn.toNat]?).join := fun c' h => by
    rw [next_dense hu]
    split
    · rfl
    · next hr =>
      rw [not_or, UInt8.not_lt, UInt8.not_lt, UInt8.le_iff_toNat_le] at hr
      rw [hne _ fun heq => h (UInt8.toNat_inj.mp (by omega))]
  unfold prune
  simp only [hu', hchild', if_pos hnbr]
  by_cases hcmn : c = mn
  · -- the leftmost label goes: drop the empty slots in front
    subst hcmn
    rw [if_pos rfl]
    obtain ⟨cf', hcf', hfront⟩ := @firstChild_spec slots (by omega)
    set k := firstChild slots with hk
    have hcx : c ≠ mx := by
      rintro rfl
      have := List.countP_le_length (p := fun p : Option Node => p.isSome) (l := slots)
      unfold sparseMax at hnbr
      omega
    have hcx' : c.toNat ≠ mx.toNat := fun h => hcx (UInt8.toNat_inj.mp h)
    have hlast : slots[mx.toNat - c.toNat]? = some (some cl) := by
      rw [hne _ (by omega), hcl]
    have hk0 : k ≠ 0 := by
      intro h0
      rw [h0, ← Nat.sub_self c.toNat, hself] at hcf'
      exact absurd hcf' (by simp)
    have hkle : k ≤ mx.toNat - c.toNat := by
      by_contra hgt
      rw [hfront _ (Nat.lt_of_not_le hgt)] at hlast
      exact absurd hlast (by simp)
    have hkn : (UInt8.ofNat (k + c.toNat)).toNat = k + c.toNat := by
      rw [UInt8.toNat_ofNat']
      have := mx.toNat_lt
      exact Nat.mod_eq_of_lt (by omega)
    have hget' : ∀ j, (slots.drop k)[j]? = slots[k + j]? := fun j => List.getElem?_drop
    refine ⟨_, rfl, rfl, rfl, hn.ok.socks, ?_, ?_, ⟨?_, ?_, ?_, hnbr8, ?_, ⟨cf', ?_⟩, ⟨cl, ?_⟩⟩,
      ?_, ?_⟩
    · rw [next_dense rfl, if_pos]
      rw [UInt8.lt_iff_toNat_lt, hkn]; omega
    · intro c' h
      rw [next_dense rfl, hslot c' h]
      simp only [UInt8.lt_iff_toNat_lt, hkn, hget']
      have hne' : c'.toNat ≠ c.toNat := fun h' => h (UInt8.toNat_inj.mp h')
      by_cases h1 : c'.toNat < c.toNat ∨ mx.toNat < c'.toNat
      · rw [if_pos h1, if_pos (by omega)]
      · rw [if_neg h1]
        by_cases h2 : c'.toNat < k + c.toNat
        · rw [if_pos (Or.inl h2), hfront _ (by omega)]; rfl
        · rw [if_neg (by omega), show k + (c'.toNat - (k + c.toNat)) = c'.toNat - c.toNat by omega]
    · intro h0
      have := congrArg UInt8.toNat h0
      rw [hkn] at this
      simp at this
      omega
    · rw [UInt8.le_iff_toNat_le, hkn]; omega
    · rw [List.length_drop, hlen', hkn]; omega
    · rw [hcnt, hk, countP_drop_firstChild (by omega)]
    · rw [hget', Nat.add_zero, hcf']
    · rw [hkn, hget', ← hlast]
      congr 1
      omega
    · exact fun p hp => hold p (List.mem_of_mem_drop hp)
    · intro _ h0
      have := congrArg List.length h0
      rw [List.length_drop, List.length_nil] at this
      omega
  · rw [if_neg hcmn]
    have hcmn' : c.toNat ≠ mn.toNat := fun h => hcmn (UInt8.toNat_inj.mp h)
    have hfirst : slots[0]? = some (some cf) := by rw [hne _ (by omega), hcf]
    by_cases hcmx : c = mx
    · -- the rightmost label goes: drop the empty slots at the end
      subst hcmx
      rw [if_pos rfl]
      obtain ⟨hklt, ⟨cl', hcl'⟩, hback⟩ := @lastChild_spec slots (by omega)
      set k := lastChild slots with hk
      have hkc : k ≠ c.toNat - mn.toNat := by
        intro h0
        rw [h0, hself] at hcl'
        exact absurd hcl' (by simp)
      have hkn : (UInt8.ofNat (k + mn.toNat)).toNat = k + mn.toNat := by
        rw [UInt8.toNat_ofNat']
        have := c.toNat_lt
        exact Nat.mod_eq_of_lt (by omega)
      have hget' : ∀ j, j ≤ k → (slots.take (k + 1))[j]? = slots[j]? := fun j hj =>
        List.getElem?_take_of_lt (by omega)
      refine ⟨_, rfl, rfl, rfl, hn.ok.socks, ?_, ?_, ⟨hmn0, ?_, ?_, hnbr8, ?_, ⟨cf, ?_⟩,
        ⟨cl', ?_⟩⟩, ?_, ?_⟩
      · rw [next_dense rfl, if_pos]
        rw [UInt8.lt_iff_toNat_lt, UInt8.lt_iff_toNat_lt, hkn]; omega
      · intro c' h
        rw [next_dense rfl, hslot c' h]
        simp only [UInt8.lt_iff_toNat_lt, hkn]
        have hne' : c'.toNat ≠ c.toNat := fun h' => h (UInt8.toNat_inj.mp h')
        by_cases h1 : c'.toNat < mn.toNat ∨ c.toNat < c'.toNat
        · rw [if_pos h1, if_pos (by omega)]
        · rw [if_neg h1]
          by_cases h2 : k + mn.toNat < c'.toNat
          · rw [if_pos (Or.inr h2), hback _ (by omega) (by omega)]; rfl
          · rw [if_neg (by omega), hget' _ (by omega)]
      · rw [UInt8.le_iff_toNat_le, hkn]; omega
      · rw [List.length_take, hkn]; omega
      · rw [hcnt, hk, countP_take_lastChild (by omega)]
      · rw [hget' _ (by omega), hfirst]
      · rw [hkn, hget' _ (by omega), Nat.add_sub_cancel, hcl']
      · exact fun p hp => hold p (List.mem_of_mem_take hp)
      · intro _ h0
        have := congrArg List.length h0
        rw [List.length_take, List.length_nil] at this
        omega
    · -- a label in the middle goes: the range stays
      rw [if_neg hcmx]
      have hcmx' : c.toNat ≠ mx.toNat := fun h => hcmx (UInt8.toNat_inj.mp h)
      refine ⟨_, rfl, rfl, rfl, hn.ok.socks, ?_, ?_, ⟨hmn0, UInt8.le_iff_toNat_le.mpr hle, hlen',
        hnbr8, hcnt, ⟨cf, hfirst⟩, ⟨cl, ?_⟩⟩, hold, ?_⟩
      · rw [next_dense rfl, hself]
        split <;> rfl
      · intro c' h
        rw [next_dense rfl, hslot c' h]
      · rw [hne _ (by omega), hcl]
      · intro _ (h0 : slots = [])
        have := congrArg List.length h0
        rw [List.length_nil] at this
        omega

/-! ## A dense array converted to a sparse one -/

theorem length_liveSlots (mn : UInt8) : ∀ (i : Nat) (slots : List (Option Node)),
    (liveSlots mn i slots).length = slots.countP (·.isSome)
  | _, [] => rfl
  | i, none :: rest => by
    rw [liveSlots, length_liveSlots mn (i + 1) rest, List.countP_cons]
    rfl
  | i, some ch :: rest => by
    rw [liveSlots, List.length_cons, length_liveSlots mn (i + 1) rest, List.countP_cons]
    rfl

/-- The labels of the live slots lie behind the ones already passed, their pointers come from the
array. -/
theorem of_mem_liveSlots {mn : UInt8} : ∀ {i : Nat} {slots : List (Option Node)},
    i + mn.toNat + slots.length ≤ 256 → ∀ q ∈ liveSlots mn i slots,
      i + mn.toNat ≤ q.1.toNat ∧ q.2.isSome ∧ q.2 ∈ slots
  | _, [], _, _, h => absurd h List.not_mem_nil
  | i, none :: rest, hle, q, h => by
    rw [List.length_cons] at hle
    obtain ⟨h1, h2, h3⟩ := @of_mem_liveSlots mn (i + 1) rest (by omega) q h
    exact ⟨by omega, h2, List.mem_cons_of_mem _ h3⟩
  | i, some ch :: rest, hle, q, h => by
    rw [List.length_cons] at hle
    rw [liveSlots] at h
    rcases List.mem_cons.mp h with rfl | h
    · refine ⟨?_, rfl, List.mem_cons_self⟩
      rw [UInt8.toNat_ofNat', Nat.mod_eq_of_lt (by omega)]
    · obtain ⟨h1, h2, h3⟩ := @of_mem_liveSlots mn (i + 1) rest (by omega) q h
      exact ⟨by omega, h2, List.mem_cons_of_mem _ h3⟩

theorem nodup_liveSlots {mn : UInt8} : ∀ {i : Nat} {slots : List (Option Node)},
    i + mn.toNat + slots.length ≤ 256 → ((liveSlots mn i slots).map Prod.fst).Nodup
  | _, [], _ => List.nodup_nil
  | i, none :: rest, hle => by
    rw [List.length_cons] at hle
    exact @nodup_liveSlots mn (i + 1) rest (by omega)
  | i, some ch :: rest, hle => by
    rw [List.length_cons] at hle
    rw [liveSlots, List.map_cons, List.nodup_cons]
    refine ⟨fun hm => ?_, @nodup_liveSlots mn (i + 1) rest (by omega)⟩
    obtain ⟨q, hq, heq⟩ := List.mem_map.mp hm
    have h1 := (@of_mem_liveSlots mn (i + 1) rest (by omega) q hq).1
    rw [heq, UInt8.toNat_ofNat', Nat.mod_eq_of_lt (by omega)] at h1
    omega

/-- **Eight live slots make a sparse array in shape.** -/
theorem branchOk_liveSlots {mn : UInt8} {slots : List (Option Node)} (hmn : mn ≠ 0)
    (hle : 0 + mn.toNat + slots.length ≤ 256) (hlen : (liveSlots mn 0 slots).length = sparseMax) :
    BranchOk (.sparse ((liveSlots mn 0 slots).map Prod.fst))
      ((liveSlots mn 0 slots).map Prod.snd) := by
  refine ⟨nodup_liveSlots hle, ?_, ?_, ?_, ?_⟩
  · rw [List.length_map, hlen]
  · rw [List.length_map, List.length_map]
  · intro hm
    obtain ⟨q, hq, heq⟩ := List.mem_map.mp hm
    have := (of_mem_liveSlots hle q hq).1
    rw [heq] at this
    exact hmn (UInt8.toNat_inj.mp (by simpa using this))
  · intro p hp
    obtain ⟨q, hq, rfl⟩ := List.mem_map.mp hp
    exact (of_mem_liveSlots hle q hq).2.1

/-- **A label finds the same child in the converted array.** -/
theorem lookup_liveSlots {mn : UInt8} (c : UInt8) : ∀ {i : Nat} {slots : List (Option Node)},
    i + mn.toNat + slots.length ≤ 256 →
      ((((liveSlots mn i slots).map Prod.fst).idxOf? c).bind fun k =>
        (((liveSlots mn i slots).map Prod.snd)[k]?).join) =
      if c.toNat < i + mn.toNat then none else (slots[c.toNat - (i + mn.toNat)]?).join
  | _, [], _ => by simp [liveSlots]
  | i, none :: rest, hle => by
    rw [List.length_cons] at hle
    rw [liveSlots, @lookup_liveSlots mn c (i + 1) rest (by omega)]
    by_cases h1 : c.toNat < i + mn.toNat
    · rw [if_pos h1, if_pos (by omega)]
    · rw [if_neg h1]
      by_cases h2 : c.toNat = i + mn.toNat
      · rw [if_pos (by omega), h2, Nat.sub_self]; rfl
      · rw [if_neg (by omega),
          show c.toNat - (i + mn.toNat) = c.toNat - (i + 1 + mn.toNat) + 1 by omega]
        rfl
  | i, some ch :: rest, hle => by
    rw [List.length_cons] at hle
    have hl : (UInt8.ofNat (i + mn.toNat)).toNat = i + mn.toNat := by
      rw [UInt8.toNat_ofNat', Nat.mod_eq_of_lt (by omega)]
    rw [liveSlots, List.map_cons, List.map_cons, List.idxOf?_cons]
    by_cases h2 : c.toNat = i + mn.toNat
    · have hc : UInt8.ofNat (i + mn.toNat) = c := UInt8.toNat_inj.mp (by rw [hl, h2])
      simp only [hc, BEq.rfl, if_true, Option.bind_some]
      rw [if_neg (by omega), h2, Nat.sub_self]
      rfl
    · have hc : (UInt8.ofNat (i + mn.toNat) == c) = false := by
        rw [beq_eq_false_iff_ne]
        rintro rfl
        exact h2 hl
      have ih := @lookup_liveSlots mn c (i + 1) rest (by omega)
      simp only [hc, Bool.false_eq_true, if_false, Option.bind_map, Function.comp_def,
        List.getElem?_cons_succ]
      rw [ih]
      by_cases h1 : c.toNat < i + mn.toNat
      · rw [if_pos h1, if_pos (by omega)]
      · rw [if_neg h1, if_neg (by omega),
          show c.toNat - (i + mn.toNat) = c.toNat - (i + 1 + mn.toNat) + 1 by omega]
        rfl

/-- **The sparse node `prune` makes of a dense one**: its count starts at 0, so the node it replaces
must not have had subscribers. -/
theorem prune_convert {n : Node} {mn mx c : UInt8} {nbr : UInt16} {i : Nat} {ch : Node} (hn : WF n)
    (hu : n.u = .dense mn mx nbr) (hc : nnNodeNext n c = some i) (hch : n.at i = some ch)
    (hnbr : ¬ sparseMax + 1 < nbr.toNat) (h0 : n.refcount = 0) :
    ∃ m, prune (n.setChild i none) i c = some (some m) ∧ Pruned n c m := by
  have hb := hn.ok.branch
  simp only [BranchOk, hu] at hb
  obtain ⟨hmn0, hle, hlen, h8, hcount, -, -⟩ := hb
  simp only [nnNodeNext, hu, Option.ite_none_left_eq_some, not_or, UInt8.not_lt,
    Option.some.injEq, UInt8.le_iff_toNat_le] at hc
  obtain ⟨⟨hge, hle'⟩, rfl⟩ := hc
  rw [UInt8.le_iff_toNat_le] at hle
  have hget : n.child[c.toNat - mn.toNat]? = some (some ch) := Option.join_eq_some_iff.mp hch
  set slots := n.child.set (c.toNat - mn.toNat) none with hslots
  have hcount' : slots.countP (·.isSome) + 1 = nbr.toNat := by
    rw [hcount]; exact countP_set_none hget
  have hlen' : 0 + mn.toNat + slots.length ≤ 256 := by
    have := mx.toNat_lt
    rw [hslots, List.length_set, hlen]
    omega
  have hlive : (liveSlots mn 0 slots).length = sparseMax := by
    rw [length_liveSlots]; omega
  have hu' : (n.setChild (c.toNat - mn.toNat) none).u = .dense mn mx nbr := hu
  have hchild' : (n.setChild (c.toNat - mn.toNat) none).child = slots := rfl
  unfold prune
  simp only [hu', hchild', if_neg hnbr, if_pos hlive]
  refine ⟨_, rfl, rfl, (live_of_refcount h0).symm, rfl, ?_, ?_, branchOk_liveSlots hmn0 hlen' hlive,
    ?_, ?_⟩
  · rw [next_sparse rfl, lookup_liveSlots c hlen', if_neg (by omega), Nat.zero_add,
      List.getElem?_set_self (by omega)]
    rfl
  · intro c' h
    have hne : c'.toNat ≠ c.toNat := fun h' => h (UInt8.toNat_inj.mp h')
    rw [next_sparse rfl, lookup_liveSlots c' hlen', next_dense hu]
    simp only [UInt8.lt_iff_toNat_lt, Nat.zero_add]
    by_cases h1 : c'.toNat < mn.toNat
    · rw [if_pos h1, if_pos (Or.inl h1)]
    · rw [if_neg h1]
      by_cases h2 : mx.toNat < c'.toNat
      · rw [if_pos (Or.inr h2), List.getElem?_eq_none (by rw [List.length_set]; omega)]
        rfl
      · rw [if_neg (by omega), List.getElem?_set_ne (by omega)]
  · intro p hp
    obtain ⟨q, hq, heq⟩ := List.mem_map.mp hp
    have := (of_mem_liveSlots hlen' q hq).2.2
    rw [heq] at this
    exact (List.mem_or_eq_of_mem_set this).resolve_right (by simp)
  · intro _ hnil
    have := congrArg List.length hnil
    rw [List.length_map, hlive] at this
    exact absurd this (by decide)

end DoubleDecker.Trie
