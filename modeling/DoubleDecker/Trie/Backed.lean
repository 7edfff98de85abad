import DoubleDecker.Trie.Tight

/-!
# Trie/Backed — no lookup invents a subscriber

    node  ──label c──▸  child        key of the child = key of the node, then c, then its prefix

The bad branches lose lists, miscount them and bring back old ones, but no list moves to another
key: whatever calls were made, a socket id a lookup returns for a string was subscribed, by one of
them, to a prefix of this string (`looked_up_was_subscribed`).
-/

namespace DoubleDecker.Trie

/-! ## Lists and slots -/

/-- The socket ids of a list, counted or not. -/
def SockIds.all : SockIds → List Frame
  | .list l => l
  | _ => []

/-- The label of a slot of the child array. -/
def Node.labelAt (n : Node) (j : Nat) : Option Nat :=
  match n.u with
  | .sparse cs => (cs[j]?).map UInt8.toNat
  | .dense mn _ _ => some (j + mn.toNat)

/-- The child array has this child in a slot for this label. -/
def Node.Slot (n : Node) (c : UInt8) (ch : Node) : Prop :=
  ∃ j : Nat, n.child[j]? = some (some ch) ∧ n.labelAt j = some c.toNat

theorem labelAt_sparse {n : Node} {cs : List UInt8} (hu : n.u = .sparse cs) (j : Nat) :
    n.labelAt j = (cs[j]?).map UInt8.toNat := by rw [Node.labelAt, hu]

theorem labelAt_dense {n : Node} {mn mx : UInt8} {nbr : UInt16} (hu : n.u = .dense mn mx nbr)
    (j : Nat) : n.labelAt j = some (j + mn.toNat) := by rw [Node.labelAt, hu]

/-- The slot a label leads to is a slot for this label. -/
theorem labelAt_of_nnNodeNext {n : Node} {c : UInt8} {i : Nat} (hc : nnNodeNext n c = some i) :
    n.labelAt i = some c.toNat := by
  cases hu : n.u with
  | sparse cs =>
    rw [nnNodeNext, hu] at hc
    obtain ⟨hi, rfl, -⟩ := List.idxOf?_eq_some_iff.mp hc
    rw [labelAt_sparse hu, List.getElem?_eq_getElem hi]
    rfl
  | dense mn mx nbr =>
    simp only [nnNodeNext, hu, Option.ite_none_left_eq_some, not_or, UInt8.not_lt,
      Option.some.injEq, UInt8.le_iff_toNat_le] at hc
    rw [labelAt_dense hu, Option.some.injEq]
    omega

theorem slot_of_next {n ch : Node} {c : UInt8} (h : n.next c = some ch) : n.Slot c ch := by
  obtain ⟨i, hi, hat⟩ := Option.bind_eq_some_iff.mp h
  exact ⟨i, Option.join_eq_some_iff.mp hat, labelAt_of_nnNodeNext hi⟩

/-- A slot from before, or the one that was written to. -/
theorem slot_setChild {n ch : Node} {i : Nat} {p : Option Node} {c c' : UInt8}
    (hi : n.labelAt i = some c.toNat) (h : (n.setChild i p).Slot c' ch) :
    n.Slot c' ch ∨ c' = c ∧ p = some ch := by
  obtain ⟨j, hj, hlabel⟩ := h
  rw [Node.setChild, List.getElem?_set] at hj
  split at hj
  · next hij =>
    subst hij
    split at hj
    · cases hj
      have hsame : n.labelAt i = some c'.toNat := hlabel
      rw [hi, Option.some.injEq] at hsame
      exact .inr ⟨(UInt8.toNat_inj.mp hsame).symm, rfl⟩
    · cases hj
  · exact .inl ⟨j, hj, hlabel⟩

/-! ## A trie with reasons -/

/-- **A trie that has a reason for every socket id** — `P key s` for each `s` in the list of the
node with this key, counted or not. -/
inductive Backed : (List UInt8 → Frame → Prop) → Node → Prop
  | mk {P : List UInt8 → Frame → Prop} {n : Node} : (∀ s ∈ n.sockids.all, P n.pre s) →
      (∀ c ch, n.Slot c ch → Backed (fun key => P (n.pre ++ c :: key)) ch) → Backed P n

variable {P Q : List UInt8 → Frame → Prop} {n m : Node}

theorem Backed.mem (h : Backed P n) {s : Frame} (hs : s ∈ n.sockids.all) : P n.pre s := by
  cases h with | mk hmem _ => exact hmem s hs

theorem Backed.slot (h : Backed P n) {c : UInt8} {ch : Node} (hc : n.Slot c ch) :
    Backed (fun key => P (n.pre ++ c :: key)) ch := by
  cases h with | mk _ hslot => exact hslot c ch hc

theorem Backed.mono (h : Backed P n) (hPQ : ∀ key s, P key s → Q key s) : Backed Q n := by
  induction h generalizing Q with
  | mk hmem _ ih =>
    exact ⟨fun s hs => hPQ _ s (hmem s hs), fun c ch hc => ih c ch hc fun _ s => hPQ _ s⟩

/-- A node in place of another: the lists it has reasons for, and no slot that is not the
other's. -/
theorem Backed.replace (h : Backed P n) (hpre : m.pre = n.pre)
    (hmem : ∀ s ∈ m.sockids.all, P n.pre s)
    (hslot : ∀ c ch, m.Slot c ch →
      n.Slot c ch ∨ Backed (fun key => P (n.pre ++ c :: key)) ch) : Backed P m :=
  ⟨by rwa [hpre], fun c ch hc => by
    rw [hpre]
    exact (hslot c ch hc).elim h.slot id⟩

/-- A trie that may be empty. -/
def BackedRoot (P : List UInt8 → Frame → Prop) (root : Option Node) : Prop :=
  ∀ n, root = some n → Backed P n

theorem backedRoot_none : BackedRoot P none := fun _ h => by cases h

theorem backedRoot_some (h : Backed P n) : BackedRoot P (some n) := fun _ h' => by cases h'; exact h

theorem BackedRoot.mono {root : Option Node} (h : BackedRoot P root)
    (hPQ : ∀ key s, P key s → Q key s) : BackedRoot Q root := fun n hn => (h n hn).mono hPQ

/-- The prefix of a node lengthened by `q ++ [x]`: the same reasons behind `q ++ [x]`. -/
theorem backed_shift {q : List UInt8} {x : UInt8} (hpre : m.pre = q ++ x :: n.pre)
    (hsocks : m.sockids = n.sockids) (hu : m.u = n.u) (hchild : m.child = n.child) :
    Backed P m ↔ Backed (fun key => P (q ++ x :: key)) n := by
  have hslot : ∀ c ch, m.Slot c ch ↔ n.Slot c ch := fun c ch => by
    rw [Node.Slot, Node.Slot, hchild]
    simp only [Node.labelAt, hu]
  have hkey : ∀ c key, m.pre ++ c :: key = q ++ x :: (n.pre ++ c :: key) := fun c key => by
    rw [hpre, List.append_assoc, List.cons_append]
  constructor
  · intro h
    refine ⟨fun s hs => ?_, fun c ch hc => ?_⟩
    · rw [← hpre]
      exact h.mem (hsocks ▸ hs)
    · refine (h.slot ((hslot c ch).mpr hc)).mono fun key s hP => ?_
      rwa [hkey] at hP
  · intro h
    refine ⟨fun s hs => ?_, fun c ch hc => ?_⟩
    · rw [hpre]
      exact h.mem (hsocks ▸ hs)
    · refine (h.slot ((hslot c ch).mp hc)).mono fun key s hP => ?_
      rwa [hkey]

/-- A node with one child, without a list. -/
theorem backed_single {q : List UInt8} {x : UInt8} {ch : Node}
    (h : Backed (fun key => P (q ++ x :: key)) ch) :
    Backed P ⟨0, q, .null, .sparse [x], [some ch]⟩ := by
  refine ⟨fun s hs => absurd hs List.not_mem_nil, fun c ch' hc => ?_⟩
  obtain ⟨j, hj, hlabel⟩ := hc
  cases j with
  | zero =>
    cases hj
    rw [← UInt8.toNat_inj.mp (Option.some.inj hlabel)]
    exact h
  | succ j => cases hj

/-! ## `nn_trie_subscribe` -/

theorem nnNodeCompact_backed (h : Backed P n) (hm : nnNodeCompact n = some m) : Backed P m := by
  unfold nnNodeCompact at hm
  split at hm
  · cases hm
    exact h
  · split at hm
    · next c hu =>
      split at hm
      · cases hm
      · next ch hat =>
        split at hm
        · cases hm
          exact h
        · cases hm
          have hslot : n.Slot c ch :=
            ⟨0, Option.join_eq_some_iff.mp hat, by rw [labelAt_sparse hu]; rfl⟩
          exact (backed_shift (m := { ch with pre := n.pre ++ c :: ch.pre }) (n := ch) rfl rfl rfl
            rfl).mpr (h.slot hslot)
    · cases hm
      exact h

theorem split_backed (h : Backed P n) {q r : List UInt8} {x : UInt8} (hpre : n.pre = q ++ x :: r)
    (hm : split n q.length = some m) : m.pre = q ∧ Backed P m := by
  have hr : n.pre.drop (q.length + 1) = r := by
    rw [hpre, ← List.drop_drop, List.drop_left, List.drop_one, List.tail_cons]
  have hx : n.pre.getD q.length 0 = x := by rw [hpre]; simp
  have hq : n.pre.take q.length = q := by rw [hpre, List.take_left]
  obtain ⟨ch, hch, hm⟩ := Option.bind_eq_some_iff.mp hm
  rw [hx, hq] at hm
  cases hm
  rw [hr] at hch
  have hshort : Backed (fun key => P (q ++ x :: key)) { n with pre := r } :=
    (backed_shift (m := n) (n := { n with pre := r }) hpre rfl rfl rfl).mp h
  exact ⟨rfl, backed_single (nnNodeCompact_backed hshort hch)⟩

theorem step5_backed {s : Frame} {r : Nat} (h : Backed P n) (hs : P n.pre s)
    (hm : step5 n s = some (m, r)) : Backed P m := by
  unfold step5 at hm
  split at hm
  · cases hm
  · cases hm
    refine h.replace rfl (fun s' hs' => ?_) fun c ch hc => .inl hc
    rwa [List.mem_singleton.mp hs']
  · next l hl =>
    split at hm
    · cases hm
      exact h
    · cases hm
      refine h.replace rfl (fun s' hs' => ?_) fun c ch hc => .inl hc
      obtain hold | hnew := List.mem_append.mp hs'
      · exact h.mem (by rw [hl]; exact hold)
      · rwa [List.mem_singleton.mp hnew]

theorem step4_backed {data : List UInt8} {s : Frame} : ∀ {P : List UInt8 → Frame → Prop} {n : Node}
    {r : Nat}, P data s → step4 data s = some (n, r) → Backed P n := by
  induction data using step4.induct with
  | case1 data hdrop =>
    intro P n r hs h
    rw [step4] at h
    split at h
    · refine step5_backed (n := ⟨0, data, .null, .sparse [], []⟩)
        ⟨fun s hs => absurd hs List.not_mem_nil, fun c ch hc => ?_⟩ hs h
      obtain ⟨j, hj, -⟩ := hc
      cases hj
    · next hdrop' => rw [hdrop] at hdrop'; cases hdrop'
  | case2 data c rest hdrop ih =>
    intro P n r hs h
    rw [← List.take_append_drop prefixMax data, hdrop] at hs
    rw [step4] at h
    split at h
    · next hdrop' => rw [hdrop] at hdrop'; cases hdrop'
    · next c' rest' hdrop' =>
      rw [hdrop, List.cons.injEq] at hdrop'
      obtain ⟨rfl, rfl⟩ := hdrop'
      obtain ⟨⟨ch, r'⟩, hch, h⟩ := Option.bind_eq_some_iff.mp h
      cases h
      exact backed_single (ih (P := fun key => P (data.take prefixMax ++ c :: key)) hs hch)

/-- What a filled pointer array holds comes from a label. -/
theorem of_getElem?_fillSlots {mn : UInt8} {ch : Node} {j : Nat} :
    ∀ {ps : List (UInt8 × Option Node)} {slots : List (Option Node)},
      (fillSlots mn slots ps)[j]? = some (some ch) →
        slots[j]? = some (some ch) ∨ ∃ c, (c, some ch) ∈ ps ∧ j = c.toNat - mn.toNat
  | [], _, h => .inl h
  | (c, p) :: ps, slots, h => by
    obtain h | ⟨c', hmem, hj⟩ := @of_getElem?_fillSlots mn ch j ps _ h
    · rw [List.getElem?_set] at h
      split at h
      · next hij =>
        split at h
        · cases h
          exact .inr ⟨c, List.mem_cons_self, hij.symm⟩
        · cases h
      · exact .inl h
    · exact .inr ⟨c', List.mem_cons_of_mem _ hmem, hj⟩

/-- **The array grown by a label**: the new slot is for the new label, and no other child has got
one. -/
theorem growChild_slots {c : UInt8} (hlabels : LabelsOk n.u n.child) :
    (growChild n c).1.pre = n.pre ∧ (growChild n c).1.sockids.all ⊆ n.sockids.all ∧
      (growChild n c).1.labelAt (growChild n c).2 = some c.toNat ∧
      ∀ c' ch, (growChild n c).1.Slot c' ch → n.Slot c' ch := by
  cases hu : n.u with
  | sparse cs =>
    rw [hu] at hlabels
    obtain ⟨-, -, hlen, -, -⟩ := hlabels
    simp only [growChild, hu]
    split
    · -- one more sparse label
      refine ⟨rfl, List.Subset.refl _, ?_, fun c' ch hc => ?_⟩
      · rw [labelAt_sparse rfl, List.getElem?_append_right (Nat.le_refl _), Nat.sub_self]
        rfl
      · obtain ⟨j, hj, hlabel⟩ := hc
        have hlt : j < n.child.length := by
          by_contra hge
          rw [List.getElem?_append_right (Nat.le_of_not_lt hge)] at hj
          have := List.mem_of_getElem? hj
          simp at this
        rw [List.getElem?_append_left hlt] at hj
        rw [labelAt_sparse rfl, List.getElem?_append_left (hlen ▸ hlt)] at hlabel
        exact ⟨j, hj, by rwa [labelAt_sparse hu]⟩
    · -- a dense array made of the sparse one
      obtain ⟨hmin, -⟩ := newMin_spec cs c
      generalize hmn : lesser c (cs.foldl lesser 255) = mn at *
      have hminNat : ∀ x ∈ c :: cs, mn.toNat ≤ x.toNat := fun x hx =>
        UInt8.le_iff_toNat_le.mp (hmin x hx)
      refine ⟨rfl, List.nil_subset _, ?_, fun c' ch hc => ?_⟩
      · rw [labelAt_dense rfl, Nat.sub_add_cancel (hminNat c List.mem_cons_self)]
      · obtain ⟨j, hj, hlabel⟩ := hc
        rw [labelAt_dense rfl, Option.some.injEq] at hlabel
        obtain hj | ⟨x, hx, rfl⟩ := of_getElem?_fillSlots hj
        · have := List.mem_of_getElem? hj
          simp at this
        · obtain ⟨i, hi⟩ := List.mem_iff_getElem?.mp hx
          rw [List.getElem?_zip_eq_some] at hi
          have hle := hminNat x (List.mem_cons_of_mem c (List.mem_of_getElem? hi.1))
          refine ⟨i, hi.2, ?_⟩
          rw [labelAt_sparse hu, hi.1, Option.map_some, ← hlabel, Nat.sub_add_cancel hle]
  | dense mn mx nbr =>
    simp only [growChild, hu]
    split
    · -- room in front
      next hlt =>
      rw [UInt8.lt_iff_toNat_lt] at hlt
      refine ⟨rfl, List.Subset.refl _, by rw [labelAt_dense rfl, Nat.zero_add], fun c' ch hc => ?_⟩
      obtain ⟨j, hj, hlabel⟩ := hc
      rw [labelAt_dense rfl, Option.some.injEq] at hlabel
      have hge : mn.toNat - c.toNat ≤ j := by
        by_contra hlt'
        rw [List.getElem?_append_left (by rw [List.length_replicate]; omega)] at hj
        have := List.mem_of_getElem? hj
        simp at this
      rw [List.getElem?_append_right (by rwa [List.length_replicate]), List.length_replicate] at hj
      exact ⟨_, hj, by rw [labelAt_dense hu, Option.some.injEq]; omega⟩
    · split
      · -- room behind
        next hge hlt =>
        rw [UInt8.lt_iff_toNat_lt] at hge hlt
        rw [hu] at hlabels
        have hle := UInt8.le_iff_toNat_le.mp hlabels.2.1
        refine ⟨rfl, List.Subset.refl _, ?_, fun c' ch hc => ?_⟩
        · rw [labelAt_dense rfl, Option.some.injEq]
          omega
        · obtain ⟨j, hj, hlabel⟩ := hc
          rw [labelAt_dense rfl] at hlabel
          have hlt' : j < n.child.length := by
            by_contra hge'
            rw [List.getElem?_append_right (Nat.le_of_not_lt hge')] at hj
            have := List.mem_of_getElem? hj
            simp at this
          rw [List.getElem?_append_left hlt'] at hj
          exact ⟨j, hj, by rwa [labelAt_dense hu]⟩
      · -- the slot is there
        next hge _ =>
        rw [UInt8.lt_iff_toNat_lt] at hge
        refine ⟨rfl, List.Subset.refl _, ?_, fun c' ch hc => ?_⟩
        · rw [labelAt_dense rfl, Option.some.injEq]
          omega
        · obtain ⟨j, hj, hlabel⟩ := hc
          exact ⟨j, hj, by rwa [labelAt_dense rfl, ← labelAt_dense hu] at hlabel⟩

theorem step3_backed {data : List UInt8} {s : Frame} {r : Nat} (h : Backed P n)
    (hlabels : LabelsOk n.u n.child) (hs : P (n.pre ++ data) s)
    (hm : step3 n data s = some (m, r)) : Backed P m := by
  cases data with
  | nil =>
    rw [List.append_nil] at hs
    exact step5_backed h hs hm
  | cons c rest =>
    obtain ⟨⟨ch, r'⟩, hch, hm⟩ := Option.bind_eq_some_iff.mp hm
    cases hm
    have hnew := step4_backed (P := fun key => P (n.pre ++ c :: key)) hs hch
    obtain ⟨hpre, hsocks, hlabel, hold⟩ := growChild_slots (c := c) hlabels
    refine h.replace hpre (fun s' hs' => h.mem (hsocks hs')) fun c' ch' hc => ?_
    obtain hc | ⟨rfl, heq⟩ := slot_setChild hlabel hc
    · exact .inl (hold c' ch' hc)
    · cases heq
      exact .inr hnew

/-- **`nn_trie_subscribe` adds the pair it is called with**, and no other. -/
theorem subscribeFrom_backed {n : Node} (hn : Tight n) : ∀ {P : List UInt8 → Frame → Prop}
    {m : Node} {data : List UInt8} {s : Frame} {r : Nat}, Backed P n → P data s →
      subscribeFrom n data s = some (m, r) → Backed P m := by
  induction hn with
  | @mk n hnode hkids ih =>
  intro P m data s r hP hs h
  rcases key_cases n data with hpre | rfl | ⟨c, rest, rfl⟩
  · -- the prefix matches in part only: split it
    have hlt : nnNodeCheckPrefix n.pre data < n.pre.length :=
      lt_of_le_of_ne (nnNodeCheckPrefix_le _ _) fun h => hpre (nnNodeCheckPrefix_eq_iff.mp h)
    obtain ⟨q, x, r', e, hq, rfl, hpos, -⟩ := exists_split_of_lt hlt
    rw [hpos] at hlt
    rw [subscribeFrom_split hlt hpos] at h
    obtain ⟨m', hm', h⟩ := Option.bind_eq_some_iff.mp h
    obtain ⟨hpre', hP'⟩ := split_backed hP hq hm'
    exact step3_backed hP' (split_tight (.mk hnode hkids) hq hm').1.node.labels (hpre' ▸ hs) h
  · -- the key ends at this node
    rw [subscribeFrom_pre] at h
    exact step5_backed hP hs h
  · -- the key goes on below this node
    rw [subscribeFrom_cons] at h
    split at h
    · exact step3_backed hP hnode.labels hs h
    · next i hi =>
      split at h
      · exact step3_backed hP hnode.labels hs h
      · next ch hat =>
        obtain ⟨⟨ch', r'⟩, hsub, h⟩ := Option.map_eq_some_iff.mp h
        cases h
        have hslot := labelAt_of_nnNodeNext hi
        have hch := hP.slot ⟨i, Option.join_eq_some_iff.mp hat, hslot⟩
        have hch' := ih ch (mem_child_of_at hat) hch hs hsub
        refine hP.replace rfl (fun s' hs' => hP.mem hs') fun c' x hc => ?_
        obtain hc | ⟨rfl, heq⟩ := slot_setChild hslot hc
        · exact .inl hc
        · cases heq
          exact .inr hch'

theorem nnTrieSubscribe_backed {root root' : Option Node} {t : List UInt8} {s : Frame} {r : Nat}
    (htight : TightRoot root) (h : BackedRoot P root) (hs : P t s)
    (hsub : nnTrieSubscribe root t s = some (root', r)) : BackedRoot P root' := by
  cases root with
  | none =>
    obtain ⟨⟨n, r'⟩, hn, hsub⟩ := Option.bind_eq_some_iff.mp hsub
    cases hsub
    exact backedRoot_some (step4_backed hs hn)
  | some n =>
    obtain ⟨⟨n', r'⟩, hn, hsub⟩ := Option.bind_eq_some_iff.mp hsub
    cases hsub
    exact backedRoot_some (subscribeFrom_backed (htight n rfl) (h n rfl) hs hn)

/-! ## `nn_trie_unsubscribe` -/

theorem found_backed {self o : Option Node} {s : Frame} {r : Int} (h : BackedRoot P self)
    (hf : found self s = some (o, r)) : BackedRoot P o := by
  cases self with
  | none =>
    cases hf
    exact backedRoot_none
  | some n =>
    unfold found at hf
    simp only at hf
    split at hf
    · cases hf
      exact h
    · split at hf
      · next l hl =>
        have hless : Backed P
            { n with refcount := n.refcount - 1, sockids := .list (l.erase s) } :=
          (h n rfl).replace rfl
            (fun s' hs' => (h n rfl).mem (by rw [hl]; exact List.mem_of_mem_erase hs'))
            fun c ch hc => .inl hc
        split at hf
        · split at hf
          · cases hf
            exact backedRoot_none
          · obtain ⟨m, hm, hf⟩ := Option.bind_eq_some_iff.mp hf
            cases hf
            exact backedRoot_some (nnNodeCompact_backed hless hm)
        · cases hf
          exact backedRoot_some hless
      · cases hf

/-- A live slot is a slot of the array, under its label. -/
theorem of_getElem?_liveSlots {mn c : UInt8} {ch : Node} :
    ∀ {slots : List (Option Node)} {i j : Nat},
    i + mn.toNat + slots.length ≤ 256 → (liveSlots mn i slots)[j]? = some (c, some ch) →
      ∃ k, slots[k]? = some (some ch) ∧ i + k + mn.toNat = c.toNat
  | [], _, _, _, h => by cases h
  | none :: slots, i, j, hle, h => by
    rw [List.length_cons] at hle
    obtain ⟨k, hk, hlabel⟩ := of_getElem?_liveSlots (i := i + 1) (by omega) h
    exact ⟨k + 1, hk, by omega⟩
  | some ch' :: slots, i, 0, hle, h => by
    rw [List.length_cons] at hle
    cases h
    refine ⟨0, rfl, ?_⟩
    rw [UInt8.toNat_ofNat', Nat.mod_eq_of_lt (by omega), Nat.add_zero]
  | some ch' :: slots, i, j + 1, hle, h => by
    rw [List.length_cons] at hle
    obtain ⟨k, hk, hlabel⟩ := of_getElem?_liveSlots (i := i + 1) (by omega) h
    exact ⟨k + 1, hk, by omega⟩

/-- **A label taken out**: what is left was there before, under the same labels. -/
theorem prune_backed {i : Nat} {c : UInt8} {o : Option Node} (h : Backed P n)
    (hlabels : LabelsOk n.u n.child) (ho : prune (n.setChild i none) i c = some o) :
    BackedRoot P o := by
  have hset : ∀ {j : Nat} {ch : Node}, (n.child.set i none)[j]? = some (some ch) →
      n.child[j]? = some (some ch) := by
    intro j ch hj
    rw [List.getElem?_set] at hj
    split at hj
    · split at hj <;> cases hj
    · exact hj
  cases hu : n.u with
  | sparse cs =>
    have hu' : (n.setChild i none).u = .sparse cs := hu
    have hchild' : (n.setChild i none).child.eraseIdx i = n.child.eraseIdx i :=
      List.eraseIdx_set_eq
    have hless : Backed P { n with u := .sparse (cs.eraseIdx i), child := n.child.eraseIdx i } := by
      refine h.replace rfl (fun s hs => h.mem hs) fun c' ch hc => .inl ?_
      obtain ⟨j, hj, hlabel⟩ := hc
      rw [labelAt_sparse rfl, List.getElem?_eraseIdx] at hlabel
      rw [List.getElem?_eraseIdx] at hj
      split at hj
      · next hlt =>
        rw [if_pos hlt] at hlabel
        exact ⟨j, hj, by rwa [labelAt_sparse hu]⟩
      · next hge =>
        rw [if_neg hge] at hlabel
        exact ⟨j + 1, hj, by rwa [labelAt_sparse hu]⟩
    simp only [prune, hu', hchild'] at ho
    split at ho
    · split at ho
      · cases ho
      · cases ho
        exact backedRoot_none
    · obtain ⟨m, hm, rfl⟩ := Option.map_eq_some_iff.mp ho
      exact backedRoot_some (nnNodeCompact_backed hless hm)
  | dense mn mx nbr =>
    have hu' : (n.setChild i none).u = .dense mn mx nbr := hu
    have hchild' : (n.setChild i none).child = n.child.set i none := rfl
    rw [hu] at hlabels
    obtain ⟨-, hle, hlen, -⟩ := hlabels
    rw [UInt8.le_iff_toNat_le] at hle
    have hmx := mx.toNat_lt
    simp only [prune, hu', hchild'] at ho
    split at ho
    · split at ho
      · cases ho
        -- the range gets smaller on the left
        refine backedRoot_some (h.replace rfl (fun s hs => h.mem hs) fun c' ch hc => .inl ?_)
        obtain ⟨j, hj, hlabel⟩ := hc
        rw [List.getElem?_drop] at hj
        have hold := hset hj
        obtain ⟨hlt, -⟩ := List.getElem?_eq_some_iff.mp hold
        rw [labelAt_dense rfl, UInt8.toNat_ofNat', Nat.mod_eq_of_lt (by omega),
          Option.some.injEq] at hlabel
        exact ⟨_, hold, by rw [labelAt_dense hu, Option.some.injEq]; omega⟩
      · split at ho
        · cases ho
          -- and on the right
          refine backedRoot_some (h.replace rfl (fun s hs => h.mem hs) fun c' ch hc => .inl ?_)
          obtain ⟨j, hj, hlabel⟩ := hc
          rw [List.getElem?_take] at hj
          split at hj
          · exact ⟨j, hset hj, by rwa [labelAt_dense rfl, ← labelAt_dense hu] at hlabel⟩
          · cases hj
        · cases ho
          refine backedRoot_some (h.replace rfl (fun s hs => h.mem hs) fun c' ch hc => .inl ?_)
          obtain ⟨j, hj, hlabel⟩ := hc
          exact ⟨j, hset hj, by rwa [labelAt_dense rfl, ← labelAt_dense hu] at hlabel⟩
    · split at ho
      · cases ho
        -- eight children left
        refine backedRoot_some (h.replace rfl (fun s hs => absurd hs List.not_mem_nil)
          fun c' ch hc => .inl ?_)
        obtain ⟨j, hj, hlabel⟩ := hc
        rw [List.getElem?_map] at hj
        obtain ⟨⟨x, p⟩, hx, rfl⟩ := Option.map_eq_some_iff.mp hj
        rw [labelAt_sparse rfl, List.getElem?_map, hx] at hlabel
        have hlabel : x.toNat = c'.toNat := Option.some.inj hlabel
        obtain ⟨k, hk, hlabel'⟩ := of_getElem?_liveSlots (by rw [List.length_set]; omega) hx
        exact ⟨k, hset hk, by rw [labelAt_dense hu, Option.some.injEq]; omega⟩
      · cases ho

/-- **`nn_trie_unsubscribe` adds no pair**, whether the pair is there or not. -/
theorem nnNodeUnsubscribe_backed {self o : Option Node} {data : List UInt8} {s : Frame} {r : Int}
    (htight : TightRoot self) (h : BackedRoot P self)
    (hu : nnNodeUnsubscribe self data s = some (o, r)) : BackedRoot P o := by
  induction hlen : data.length using Nat.strong_induction_on generalizing P self o data r with
  | h len ih =>
  by_cases hd : data = []
  · rw [nnNodeUnsubscribe.eq_def, if_pos hd] at hu
    exact found_backed h hu
  cases self with
  | none => rw [nnNodeUnsubscribe, if_neg hd] at hu; cases hu
  | some n =>
    have hn := htight n rfl
    have hP := h n rfl
    rcases key_cases n data with hpre | rfl | ⟨c, rest, rfl⟩
    · rw [nnNodeUnsubscribe_off s hpre hd] at hu
      cases hu
      exact h
    · rw [nnNodeUnsubscribe_pre] at hu
      exact found_backed h hu
    · cases hc : nnNodeNext n c with
      | none =>
        rw [nnNodeUnsubscribe_cons_none rest s hc] at hu
        cases hu
        exact h
      | some i =>
        rw [nnNodeUnsubscribe_cons rest s hc] at hu
        obtain ⟨⟨ch', r'⟩, hch, hu⟩ := Option.bind_eq_some_iff.mp hu
        have hlabel := labelAt_of_nnNodeNext hc
        have hch' := ih rest.length (by rw [← hlen, List.length_append, List.length_cons]; omega)
          (P := fun key => P (n.pre ++ c :: key))
          (fun ch hat => hn.child (mem_child_of_at hat))
          (fun ch hat => hP.slot ⟨i, Option.join_eq_some_iff.mp hat, hlabel⟩) hch rfl
        have hset : Backed P (n.setChild i ch') := by
          refine hP.replace rfl (fun s' hs' => hP.mem hs') fun c' x hx => ?_
          obtain hx | ⟨rfl, heq⟩ := slot_setChild hlabel hx
          · exact .inl hx
          · exact .inr (hch' x heq)
        simp only at hu
        split at hu
        · cases hu
          exact backedRoot_some hset
        · split at hu
          · cases hu
            exact backedRoot_some hset
          · next hgone =>
            obtain ⟨o', ho, heq⟩ := Option.map_eq_some_iff.mp hu
            cases heq
            rw [Option.not_isSome_iff_eq_none.mp hgone] at ho
            exact prune_backed hP hn.node.labels ho

/-! ## Lookups -/

/-- A socket id a node adds is in its list. -/
theorem mem_collect {pub pub' : Option (List Frame)} (hc : collect n pub = some pub') {s : Frame}
    (hs : s ∈ pub'.getD []) : s ∈ pub.getD [] ∨ s ∈ n.sockids.all := by
  unfold collect at hc
  split at hc
  · split at hc
    · next l hl =>
      cases hc
      rw [Option.getD_some, mem_foldl_appendUnique] at hs
      rwa [hl]
    · cases hc
  · cases hc
    exact .inl hs

/-- **A lookup adds what it has reasons for**, under prefixes of its string. -/
theorem treeFrom_backed {n : Node} (h : Backed P n) : ∀ {data : List UInt8}
    {pub socks : Option (List Frame)}, treeFrom n data pub = some socks → ∀ s ∈ socks.getD [],
      s ∈ pub.getD [] ∨ ∃ key, key <+: data ∧ P key s := by
  induction h with
  | @mk P n hmem hslot ih =>
  intro data pub socks htree s hs
  rw [treeFrom_eq] at htree
  split at htree
  · next hpre =>
    obtain ⟨data, rfl⟩ := hpre
    obtain ⟨pub', hpub, htree⟩ := Option.bind_eq_some_iff.mp htree
    have hhere : s ∈ pub'.getD [] →
        s ∈ pub.getD [] ∨ ∃ key, key <+: n.pre ++ data ∧ P key s := fun hs =>
      (mem_collect hpub hs).imp_right fun hall => ⟨n.pre, List.prefix_append _ _, hmem s hall⟩
    rw [List.drop_left] at htree
    cases data with
    | nil =>
      simp only at htree
      split at htree
      · cases htree
      · cases htree
        exact hhere hs
    | cons c rest =>
      simp only at htree
      cases hc : n.next c with
      | none =>
        rw [hc] at htree
        cases htree
        exact hhere hs
      | some ch =>
        rw [hc] at htree
        obtain hs | ⟨key, hkey, hP⟩ := ih c ch (slot_of_next hc) htree s hs
        · exact hhere hs
        · refine .inr ⟨n.pre ++ c :: key, ?_, hP⟩
          rw [List.prefix_append_right_inj, List.cons_prefix_cons]
          exact ⟨rfl, hkey⟩
  · cases htree
    exact .inl hs

theorem nnTrieTree_backed {root : Option Node} (h : BackedRoot P root) {x : List UInt8}
    {socks : Option (List Frame)} (htree : nnTrieTree root x = some socks) {s : Frame}
    (hs : s ∈ socks.getD []) : ∃ key, key <+: x ∧ P key s := by
  cases root with
  | none =>
    cases htree
    cases hs
  | some n =>
    obtain hs | hs := treeFrom_backed (h n rfl) htree s hs
    · cases hs
    · exact hs

/-! ## Runs -/

theorem Op.exec_backed {root root' : Option Node} {op : Op} (htight : TightRoot root)
    (h : BackedRoot P root) (hop : ∀ t s, op = .subscribe t s → P t s)
    (hexec : op.exec root = some root') : BackedRoot P root' := by
  cases op with
  | subscribe t s =>
    obtain ⟨⟨root₁, r⟩, hs, rfl⟩ := Option.map_eq_some_iff.mp hexec
    exact nnTrieSubscribe_backed htight h (hop t s rfl) hs
  | unsubscribe t s =>
    obtain ⟨⟨root₁, r⟩, hs, rfl⟩ := Option.map_eq_some_iff.mp hexec
    exact nnNodeUnsubscribe_backed htight h hs

theorem exec_backed {ops : List Op} : ∀ {root root' : Option Node}, TightRoot root →
    BackedRoot P root → (∀ t s, Op.subscribe t s ∈ ops → 0 ∉ t ∧ P t s) →
      exec root ops = some root' → BackedRoot P root' := by
  induction ops with
  | nil => rintro root root' - h - ⟨⟩; exact h
  | cons op ops ih =>
    intro root root' htight h hops hexec
    obtain ⟨root₁, h₁, hexec⟩ := Option.bind_eq_some_iff.mp hexec
    refine ih (Op.exec_tight htight ?_ h₁) (Op.exec_backed htight h ?_ h₁)
      (fun t s hm => hops t s (List.mem_cons_of_mem _ hm)) hexec
    · rintro t s rfl
      exact (hops t s List.mem_cons_self).1
    · rintro t s rfl
      exact (hops t s List.mem_cons_self).2

/-- **No lookup invents a subscriber** — after any calls of `nn_trie_subscribe` and
`nn_trie_unsubscribe` that returned, of pairs that are there or not, through the conversions that
lose lists or not: every socket id a lookup returns for a string was subscribed, by one of the
calls, to a prefix of the string. -/
theorem looked_up_was_subscribed (ops : List Op) (hnul : ∀ t s, Op.subscribe t s ∈ ops → 0 ∉ t)
    {root : Option Node} (hexec : exec none ops = some root) {x : List UInt8}
    {socks : Option (List Frame)} (htree : nnTrieTree root x = some socks) :
    ∀ s ∈ socks.getD [], ∃ t, t <+: x ∧ Op.subscribe t s ∈ ops := fun _ hs =>
  nnTrieTree_backed (exec_backed tightRoot_none backedRoot_none
    (fun t s hm => ⟨hnul t s hm, hm⟩) hexec) htree hs

/-- The subscriber `[20]` of `n` goes after a call for a pair that is not there, which took its
count; the next subscriber brings it back. -/
def broughtBack : List Op :=
  [.subscribe [110] [20], .subscribe [110, 97] [5], .subscribe [110, 98] [6],
    .unsubscribe [110] [21], .unsubscribe [110] [20], .subscribe [110] [22]]

theorem broughtBack_exec : (exec none broughtBack).bind (nnTrieTree · [110, 97]) =
    some (some [[20], [22], [5]]) := by
  decide +kernel

/-- It was subscribed, by the first call. -/
theorem looked_up_was_subscribed_broughtBack : ∃ t, t <+: [110, 97] ∧
    Op.subscribe t [20] ∈ broughtBack := by
  obtain ⟨root, hroot, htree⟩ := Option.bind_eq_some_iff.mp broughtBack_exec
  have hnul : ∀ t s, Op.subscribe t s ∈ broughtBack → 0 ∉ t := by
    intro t s h
    simp only [broughtBack, List.mem_cons, Op.subscribe.injEq, reduceCtorEq, List.not_mem_nil] at h
    grind
  exact looked_up_was_subscribed broughtBack hnul hroot htree [20] (by decide)

end DoubleDecker.Trie
