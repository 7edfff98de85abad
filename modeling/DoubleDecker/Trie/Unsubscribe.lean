import DoubleDecker.Trie.Prune

/-!
# Trie/Unsubscribe — `nn_trie_unsubscribe` takes one pair away

`nnNodeUnsubscribe_spec`: on a well-formed trie that holds the pair, the call returns, what is left
is well formed or empty, the key loses the socket id and no other key changes — as long as pruning
does not convert a dense node that has subscribers and does not free a list that was never set
(`unsubscribeSafe`).
-/

namespace DoubleDecker.Trie

/-- The subscribers of a key in a trie that may be empty. -/
def held (root : Option Node) (key : List UInt8) : List Frame := (root.map (subs · key)).getD []

@[simp] theorem held_none (key : List UInt8) : held none key = [] := rfl

@[simp] theorem held_some (n : Node) (key : List UInt8) : held (some n) key = subs n key := rfl

/-- A trie that may be empty, in shape. -/
def Shaped (root : Option Node) : Prop := ∀ n, root = some n → WF n

theorem shaped_none : Shaped none := fun _ h => by cases h

theorem shaped_some {n : Node} (h : WF n) : Shaped (some n) := fun _ h' => by cases h'; exact h

theorem Shaped.nodup {root : Option Node} (h : Shaped root) (key : List UInt8) :
    (held root key).Nodup := by
  cases root with
  | none => exact List.nodup_nil
  | some n => exact (h n rfl).subs_nodup key

/-! ## The condition -/

/-- The node a key ends at, and the nodes above it, that go with the last subscriber of the key. -/
def dies (n : Node) (data : List UInt8) : Bool :=
  if n.pre <+: data then
    match _h : data.drop n.pre.length with
    | [] => n.refcount = 1 ∧ n.type = 0
    | c :: rest =>
      match n.next c with
      | none => false
      | some ch => dies ch rest && decide (n.type = 1 ∧ n.refcount = 0)
  else false
termination_by data.length
decreasing_by
  have := congrArg List.length _h
  simp only [List.length_drop, List.length_cons] at this
  omega

/-- The child array of the node can lose a child without the node losing its list, and without the
list being freed before it was set. -/
def pruneSafe (n : Node) : Bool :=
  match n.u with
  | .sparse _ => decide (n.type = 1 → n.refcount = 0 → n.sockids ≠ .uninit)
  | .dense _ _ nbr => decide (nbr.toNat ≤ sparseMax + 1 → n.refcount = 0)

/-- **The branches of `nn_node_unsubscribe` that lose or misread a list are not taken**: every node
on the path whose child goes can lose it. -/
def unsubscribeSafe (n : Node) (data : List UInt8) : Bool :=
  if n.pre <+: data then
    match _h : data.drop n.pre.length with
    | [] => true
    | c :: rest =>
      match n.next c with
      | none => true
      | some ch => unsubscribeSafe ch rest && (!dies ch rest || pruneSafe n)
  else true
termination_by data.length
decreasing_by
  have := congrArg List.length _h
  simp only [List.length_drop, List.length_cons] at this
  omega

theorem dies_pre (n : Node) : dies n n.pre = decide (n.refcount = 1 ∧ n.type = 0) := by
  rw [dies, if_pos (List.prefix_refl _)]
  split
  · rfl
  · next h => simp at h

theorem dies_cons {n ch : Node} {c : UInt8} (rest : List UInt8) (hc : n.next c = some ch) :
    dies n (n.pre ++ c :: rest) = (dies ch rest && decide (n.type = 1 ∧ n.refcount = 0)) := by
  rw [dies, if_pos (List.prefix_append _ _)]
  split
  · next h => simp at h
  · next h =>
    simp only [List.drop_left, List.cons.injEq] at h
    obtain ⟨rfl, rfl⟩ := h
    rw [hc]

theorem unsubscribeSafe_cons {n ch : Node} {c : UInt8} {rest : List UInt8}
    (hc : n.next c = some ch) (h : unsubscribeSafe n (n.pre ++ c :: rest)) :
    unsubscribeSafe ch rest ∧ (dies ch rest → pruneSafe n) := by
  rw [unsubscribeSafe, if_pos (List.prefix_append _ _)] at h
  split at h
  · next h0 => simp at h0
  · next h0 =>
    simp only [List.drop_left, List.cons.injEq] at h0
    obtain ⟨rfl, rfl⟩ := h0
    rw [hc] at h
    simp only [Bool.and_eq_true, Bool.or_eq_true, Bool.not_eq_true'] at h
    exact ⟨h.1, fun hd => h.2.resolve_left (by simp [hd])⟩

/-! ## A child destroyed -/

/-- **`prune` takes the keys of one label away.** -/
theorem prune_spec {n ch : Node} {c : UInt8} {i : Nat} (hn : WF n) (hc : nnNodeNext n c = some i)
    (hch : n.at i = some ch) (hsafe : pruneSafe n) :
    ∃ o, prune (n.setChild i none) i c = some o ∧ (o = none ↔ n.type = 1 ∧ n.refcount = 0) ∧
      Shaped o ∧ (∀ rest, held o (n.pre ++ c :: rest) = []) ∧
      ∀ key, (∀ rest, key ≠ n.pre ++ c :: rest) → held o key = subs n key := by
  cases hu : n.u with
  | dense mn mx nbr =>
    have htype : n.type ≠ 1 := by simp [Node.type, hu, sparseMax]
    obtain ⟨m, hm, hp⟩ : ∃ m, prune (n.setChild i none) i c = some (some m) ∧ Pruned n c m := by
      by_cases hnbr : sparseMax + 1 < nbr.toNat
      · exact prune_dense hn hu hc hch hnbr
      · simp only [pruneSafe, hu, decide_eq_true_eq] at hsafe
        exact prune_convert hn hu hc hch hnbr (hsafe (Nat.le_of_not_lt hnbr))
    obtain ⟨hwf, hgone, hother⟩ := hp.wf_subs hn
    exact ⟨some m, hm, ⟨(absurd · (by simp)), fun h => absurd h.1 htype⟩, shaped_some hwf, hgone,
      hother⟩
  | sparse cs =>
    have htype : n.type = cs.length := by rw [Node.type, hu]
    have hi : i < cs.length := by
      rw [nnNodeNext, hu] at hc
      exact (List.idxOf?_eq_some_iff.mp hc).1
    have herase : (n.child.set i none).eraseIdx i = n.child.eraseIdx i := List.eraseIdx_set_eq
    have hlen : (cs.eraseIdx i).length + 1 = cs.length := by
      rw [List.length_eraseIdx_of_lt hi]; omega
    have hu' : (n.setChild i none).u = .sparse cs := hu
    have hchild' : (n.setChild i none).child = n.child.set i none := rfl
    by_cases hempty : n.type = 1 ∧ n.refcount = 0
    · -- the last child of a node without subscribers
      refine ⟨none, ?_, ⟨fun _ => hempty, fun _ => rfl⟩, shaped_none, fun _ => rfl, ?_⟩
      · simp only [pruneSafe, hu, decide_eq_true_eq] at hsafe
        unfold prune
        simp only [hu', hchild', herase]
        rw [if_pos]
        · split
          · next hs => exact absurd hs (hsafe hempty.1 hempty.2)
          · rfl
        · refine ⟨?_, by simp [nnNodeHasSubscribers, Node.setChild, hempty.2]⟩
          simp only [Node.type]; omega
      · intro key hkey
        obtain ⟨x, hx⟩ := List.length_eq_one_iff.mp (htype ▸ hempty.1)
        rcases key_cases n key with h | rfl | ⟨c', rest, rfl⟩
        · rw [held_none, subs_off h]
        · rw [held_none, subs_pre, live_of_refcount hempty.2]
        · rw [held_none, subs_pre_cons, next_sparse hu, hx]
          rw [nnNodeNext, hu, hx] at hc
          have hcx : c = x := by
            by_contra hne
            simp [Ne.symm hne] at hc
          have hne : c' ≠ x := by
            rintro rfl
            exact hkey rest (by rw [hcx])
          simp [Ne.symm hne]
    · have hp := prune_sparse hn hu hc fun h0 h1 => hempty ⟨htype.trans h1, h0⟩
      obtain ⟨hwf, hgone, hother⟩ := hp.wf_subs hn
      obtain ⟨m, hm, hwf', hsubs⟩ := nnNodeCompact_spec hwf
      refine ⟨some m, ?_, ⟨(absurd · (by simp)), fun h => absurd h hempty⟩,
        shaped_some hwf', ?_, ?_⟩
      · unfold prune
        simp only [hu', hchild', herase]
        rw [if_neg]
        · exact congrArg (Option.map some) hm
        · rintro ⟨h1, h2⟩
          simp only [Node.type] at h1
          refine hempty ⟨by omega, ?_⟩
          simpa [nnNodeHasSubscribers, Node.setChild] using h2
      · exact fun rest => (hsubs _).trans (hgone rest)
      · exact fun key hkey => (hsubs key).trans (hother key hkey)

/-! ## The end of the subscription -/

theorem next_of_type_zero {n : Node} (h : n.type = 0) (c : UInt8) : n.next c = none := by
  unfold Node.type at h
  split at h
  · next cs hu =>
    rw [next_sparse hu, List.eq_nil_of_length_eq_zero h]
    rfl
  · exact absurd h (by decide)

theorem child_ne_nil_of_type {n : Node} (hb : BranchOk n.u n.child) (h : n.type ≠ 0) :
    n.child ≠ [] := by
  unfold Node.type at h
  unfold BranchOk at hb
  intro hnil
  rw [hnil, List.length_nil] at hb
  split at h
  · next cs hu =>
    simp only [hu] at hb
    exact h hb.2.2.1.symm
  · next hu =>
    simp only [hu] at hb
    omega

/-- **One subscriber less at the node the key ends at.** -/
theorem found_spec {n : Node} {s : Frame} (hn : WF n) (hs : s ∈ n.live) :
    ∃ o r, found (some n) s = some (o, r) ∧ (o = none ↔ n.refcount = 1 ∧ n.type = 0) ∧
      (o = none → r = 1) ∧ Shaped o ∧
      ∀ key, held o key = if key = n.pre then n.live.erase s else subs n key := by
  obtain ⟨hne, l, hl, hmem⟩ := SocksOk.of_mem_live hs
  have hlive := hn.ok.socks.live_eq hl
  have hsock := hn.ok.socks
  simp only [SocksOk, hl] at hsock
  have hsub : nnNodeHasSubscribers n = true := by simpa [nnNodeHasSubscribers] using hne
  have hcount : (n.refcount - 1).toNat = (l.erase s).length := by
    have h1 : (1 : UInt32) ≤ n.refcount := by
      rw [UInt32.le_iff_toNat_le, hsock.2]
      exact List.length_pos_of_mem hmem
    rw [UInt32.toNat_sub_of_le _ _ h1, hsock.2, List.length_erase_of_mem hmem]
    rfl
  have hone : n.refcount - 1 = 0 ↔ n.refcount = 1 := by
    constructor
    · intro h
      have := congrArg (· + 1) h
      simpa using this
    · rintro h
      rw [h]; rfl
  obtain ⟨m, hm⟩ : ∃ m : Node, { n with
      refcount := n.refcount - 1, sockids := .list (l.erase s) } = m := ⟨_, rfl⟩
  have hsock' : SocksOk m := hm ▸ ⟨hsock.1.erase s, hcount⟩
  have hm0 : m.refcount = n.refcount - 1 := hm ▸ rfl
  have hmt : m.type = n.type := hm ▸ rfl
  have hlive' : m.live = n.live.erase s := by rw [hsock'.live_eq (by rw [← hm]), hlive]
  have hsubs : ∀ key,
      subs m key = if key = n.pre then n.live.erase s else subs n key := fun key => by
    rw [subs_of_same_children (n := n) (by rw [← hm]) (by rw [← hm]) (by rw [← hm]), hlive']
  have hwf : (m.refcount = 0 → n.type ≠ 0) → WF m := fun h => by
    subst hm
    exact ⟨⟨hn.ok.pre_le, hn.ok.pre_nul, hsock', hn.ok.branch,
      fun h0 => child_ne_nil_of_type hn.ok.branch (h h0)⟩, fun ch hch => hn.child hch⟩
  have hfound : found (some n) s = if m.refcount = 0 then
      if m.type = 0 then some (none, 1) else (nnNodeCompact m).map fun m' => (some m', 1)
      else some (some m, 0) := by
    unfold found
    simp only [hsub, Bool.not_true, Bool.false_eq_true, if_false, hl, ← hm]
    split
    · split
      · rfl
      · cases nnNodeCompact _ <;> rfl
    · rfl
  rw [hfound]
  by_cases h0 : m.refcount = 0
  · rw [if_pos h0]
    by_cases ht : m.type = 0
    · -- no subscriber and no child is left
      refine ⟨none, 1, if_pos ht, ⟨fun _ => ⟨hone.mp (hm0 ▸ h0), hmt ▸ ht⟩, fun _ => rfl⟩,
        fun _ => rfl, shaped_none, fun key => ?_⟩
      rw [← hsubs, held_none]
      rcases key_cases m key with h | rfl | ⟨c, rest, rfl⟩
      · rw [subs_off h]
      · rw [subs_pre, live_of_refcount h0]
      · rw [subs_pre_cons, next_of_type_zero ht]; rfl
    · obtain ⟨m', hm', hwf', hms⟩ := nnNodeCompact_spec (hwf fun _ => hmt ▸ ht)
      refine ⟨some m', 1, ?_, ⟨(absurd · (by simp)), fun h => absurd (hmt ▸ h.2) ht⟩,
        (absurd · (by simp)), shaped_some hwf', fun key => ?_⟩
      · rw [if_neg ht, hm']; rfl
      · rw [held_some, hms, hsubs]
  · rw [if_neg h0]
    refine ⟨some m, 0, rfl, ⟨(absurd · (by simp)), fun h => absurd (hm0 ▸ hone.mpr h.1) h0⟩,
      (absurd · (by simp)), shaped_some (hwf fun h => absurd h h0), fun key => ?_⟩
    rw [held_some, hsubs]

/-! ## The whole call -/

theorem nnNodeUnsubscribe_pre (n : Node) (s : Frame) :
    nnNodeUnsubscribe (some n) n.pre s = found (some n) s := by
  rw [nnNodeUnsubscribe]
  split
  · rfl
  · have hpos : nnNodeCheckPrefix n.pre n.pre = n.pre.length :=
      nnNodeCheckPrefix_eq_iff.mpr (List.prefix_refl _)
    simp only [hpos, ne_eq, not_true_eq_false, if_false]
    split
    · rfl
    · next h => rw [List.drop_length] at h; cases h

theorem nnNodeUnsubscribe_cons {n : Node} {c : UInt8} {i : Nat} (rest : List UInt8) (s : Frame)
    (hc : nnNodeNext n c = some i) :
    nnNodeUnsubscribe (some n) (n.pre ++ c :: rest) s =
      (nnNodeUnsubscribe (n.at i) rest s).bind fun p =>
        if p.2 = 0 then some (some (n.setChild i p.1), 0)
        else if p.1.isSome then some (some (n.setChild i p.1), 1)
        else (prune (n.setChild i p.1) i c).map (·, 1) := by
  rw [nnNodeUnsubscribe, if_neg (by simp)]
  simp only [nnNodeCheckPrefix_append, ne_eq, not_true_eq_false, if_false]
  split
  · next h => rw [List.drop_left] at h; cases h
  · next c' rest' h =>
    rw [List.drop_left, List.cons.injEq] at h
    obtain ⟨rfl, rfl⟩ := h
    simp only [hc]
    cases nnNodeUnsubscribe (n.at i) rest s with
    | none => rfl
    | some p =>
      simp only [Option.bind_eq_bind, Option.bind_some]
      split
      · rfl
      · split
        · rfl
        · cases prune (n.setChild i p.1) i c <;> rfl

/-- **`nn_node_unsubscribe` takes one pair away.** -/
theorem nnNodeUnsubscribe_spec {n : Node} {data : List UInt8} {s : Frame} (hn : WF n)
    (hs : s ∈ subs n data) (hsafe : unsubscribeSafe n data) :
    ∃ o r, nnNodeUnsubscribe (some n) data s = some (o, r) ∧ (o = none ↔ dies n data) ∧
      (o = none → r = 1) ∧ Shaped o ∧
      ∀ key, held o key = if key = data then (subs n key).erase s else subs n key := by
  induction hn generalizing data with
  | @mk n hok hkids ih =>
  have hn : WF n := .mk hok hkids
  rcases key_cases n data with hpre | rfl | ⟨c, rest, rfl⟩
  · rw [subs_off hpre] at hs
    exact absurd hs List.not_mem_nil
  · rw [subs_pre] at hs
    obtain ⟨o, r, hf, hnone, hr, hshape, hheld⟩ := found_spec hn hs
    refine ⟨o, r, by rw [nnNodeUnsubscribe_pre, hf], by rw [hnone, dies_pre, decide_eq_true_eq],
      hr, hshape, fun key => ?_⟩
    rw [hheld]
    split
    · next hk => rw [hk, subs_pre]
    · rfl
  · rw [subs_pre_cons] at hs
    cases hc : n.next c with
    | none => rw [hc] at hs; exact absurd hs List.not_mem_nil
    | some ch =>
      rw [hc] at hs
      obtain ⟨i, hi, hat⟩ := Option.bind_eq_some_iff.mp hc
      obtain ⟨hsafe', hprune⟩ := unsubscribeSafe_cons hc hsafe
      obtain ⟨o, r, hu, hnone, hr, hshape, hheld⟩ := ih ch (mem_child_of_at hat) hs hsafe'
      rw [nnNodeUnsubscribe_cons rest s hi, hat, hu, Option.bind_some, dies_cons rest hc]
      cases o with
      | some ch' =>
        -- the child stays
        have hd : dies ch rest = false := by simpa using hnone
        obtain ⟨hwf, hnew, hold⟩ := hn.replace hi hat (hshape ch' rfl)
        have hspec : ∀ key, subs (n.setChild i (some ch')) key =
            if key = n.pre ++ c :: rest then (subs n key).erase s else subs n key := fun key => by
          by_cases hkey : ∃ rest', key = n.pre ++ c :: rest'
          · obtain ⟨rest', rfl⟩ := hkey
            have := hheld rest'
            rw [held_some] at this
            rw [hnew, this, subs_pre_cons, hc]
            simp
          · rw [hold key fun rest' h => hkey ⟨rest', h⟩, if_neg fun h => hkey ⟨rest, h⟩]
        by_cases hr0 : r = 0
        · exact ⟨some (n.setChild i (some ch')), 0, by simp [hr0], by simp [hd],
            (absurd · (by simp)), shaped_some hwf, hspec⟩
        · exact ⟨some (n.setChild i (some ch')), 1, by simp [hr0], by simp [hd],
            (absurd · (by simp)), shaped_some hwf, hspec⟩
      | none =>
        -- the child goes
        have hd : dies ch rest = true := by simpa using hnone
        have hr1 : r = 1 := hr rfl
        obtain ⟨o', hp, hnone', hshape', hgone, hother⟩ := prune_spec hn hi hat (hprune hd)
        refine ⟨o', 1, by simp [hr1, hp], by simp [hd, hnone'], fun _ => rfl, hshape',
          fun key => ?_⟩
        by_cases hkey : ∃ rest', key = n.pre ++ c :: rest'
        · obtain ⟨rest', rfl⟩ := hkey
          have := hheld rest'
          rw [held_none] at this
          rw [hgone, subs_pre_cons, hc]
          simpa using this
        · rw [hother key fun rest' h => hkey ⟨rest', h⟩, if_neg fun h => hkey ⟨rest, h⟩]

/-! ## The bad branches -/

/-- **A child array that is shrunk in a bad branch** faults, or leaves a node without its list. -/
theorem prune_unsafe {n : Node} {c : UInt8} {i : Nat} (hn : WF n) (hc : nnNodeNext n c = some i)
    (hsafe : ¬ pruneSafe n) :
    prune (n.setChild i none) i c = none ∨
      ∃ m, prune (n.setChild i none) i c = some (some m) ∧ ∃ s, s ∈ n.live ∧ s ∉ subs m n.pre := by
  cases hu : n.u with
  | sparse cs =>
    -- the only child of a node without subscribers, whose list was never set
    have hu' : (n.setChild i none).u = .sparse cs := hu
    simp only [pruneSafe, hu, decide_eq_true_eq, Classical.not_imp, not_not] at hsafe
    obtain ⟨htype, hcount, huninit⟩ := hsafe
    have hi : i < cs.length := by
      rw [nnNodeNext, hu] at hc
      exact (List.idxOf?_eq_some_iff.mp hc).1
    have hone : cs.length = 1 := by rwa [Node.type, hu] at htype
    left
    unfold prune
    simp only [hu']
    rw [if_pos]
    · have hs : (n.setChild i none).sockids = .uninit := huninit
      simp only [hs]
    · refine ⟨?_, by simp [nnNodeHasSubscribers, Node.setChild, hcount]⟩
      simp only [Node.type, List.length_eraseIdx_of_lt hi]
      omega
  | dense mn mx nbr =>
    have hu' : (n.setChild i none).u = .dense mn mx nbr := hu
    simp only [pruneSafe, hu, decide_eq_true_eq, Classical.not_imp] at hsafe
    obtain ⟨hnbr, hcount⟩ := hsafe
    obtain ⟨s, hs⟩ : ∃ s, s ∈ n.live := by
      have hsock := hn.ok.socks
      unfold SocksOk at hsock
      cases hl : n.sockids with
      | null => simp only [hl] at hsock; exact absurd hsock hcount
      | uninit => simp only [hl] at hsock; exact absurd hsock hcount
      | list l =>
        rw [hn.ok.socks.live_eq hl]
        simp only [hl] at hsock
        refine List.exists_mem_of_ne_nil l fun hnil => hcount (UInt32.toNat_inj.mp ?_)
        rw [hsock.2, hnil]
        rfl
    -- the converted node starts with the count 0
    have hgone : ∀ m : Node, m.pre = n.pre → m.refcount = 0 → s ∉ subs m n.pre := by
      intro m hpre h0
      rw [← hpre, subs_pre, live_of_refcount h0]
      exact List.not_mem_nil
    unfold prune
    simp only [hu', if_neg (Nat.not_lt.mpr hnbr)]
    split
    · exact Or.inr ⟨_, rfl, s, hs, hgone _ rfl rfl⟩
    · exact Or.inl rfl

/-- **A call that takes a bad branch** faults, or loses a pair of another topic. -/
theorem nnNodeUnsubscribe_unsafe {n : Node} {data : List UInt8} {s : Frame} (hn : WF n)
    (hs : s ∈ subs n data) (hsafe : ¬ unsubscribeSafe n data) :
    nnNodeUnsubscribe (some n) data s = none ∨
      ∃ m r, nnNodeUnsubscribe (some n) data s = some (some m, r) ∧
        ∃ key s', key ≠ data ∧ s' ∈ subs n key ∧ s' ∉ subs m key := by
  induction hn generalizing data with
  | @mk n hok hkids ih =>
  have hn : WF n := .mk hok hkids
  rcases key_cases n data with hpre | rfl | ⟨c, rest, rfl⟩
  · rw [subs_off hpre] at hs
    exact absurd hs List.not_mem_nil
  · refine absurd ?_ hsafe
    rw [unsubscribeSafe, if_pos (List.prefix_refl _)]
    split
    · rfl
    · next h => rw [List.drop_length] at h; cases h
  · rw [subs_pre_cons] at hs
    cases hc : n.next c with
    | none => rw [hc] at hs; exact absurd hs List.not_mem_nil
    | some ch =>
      rw [hc] at hs
      obtain ⟨i, hi, hat⟩ := Option.bind_eq_some_iff.mp hc
      rw [nnNodeUnsubscribe_cons rest s hi, hat]
      by_cases hch : unsubscribeSafe ch rest
      · -- the branch is taken at this node
        have hd : dies ch rest ∧ ¬ pruneSafe n := by
          rw [unsubscribeSafe, if_pos (List.prefix_append _ _)] at hsafe
          split at hsafe
          · next h => rw [List.drop_left] at h; cases h
          · next h =>
            rw [List.drop_left, List.cons.injEq] at h
            obtain ⟨rfl, rfl⟩ := h
            rw [hc] at hsafe
            simp only [hch, Bool.true_and, Bool.or_eq_true, Bool.not_eq_true', not_or,
              Bool.not_eq_false] at hsafe
            exact hsafe
        obtain ⟨o, r, hu, hnone, hr, -, -⟩ :=
          nnNodeUnsubscribe_spec (hkids ch (mem_child_of_at hat)) hs hch
        obtain rfl := hnone.mpr hd.1
        rw [hu, Option.bind_some, hr rfl]
        simp only [Option.isSome_none, Bool.false_eq_true, if_false]
        rw [if_neg (by decide)]
        obtain hp | ⟨m, hp, s', hs', hlost⟩ := prune_unsafe hn hi hd.2
        · exact Or.inl (by rw [hp]; rfl)
        · refine Or.inr ⟨m, 1, by rw [hp]; rfl, n.pre, s', ?_, by rwa [subs_pre], hlost⟩
          intro h
          have hlen := congrArg List.length h
          rw [List.length_append, List.length_cons] at hlen
          omega
      · -- the branch is taken below
        obtain hu | ⟨m, r, hu, key, s', hkey, hs', hlost⟩ :=
          ih ch (mem_child_of_at hat) hs hch
        · exact Or.inl (by rw [hu]; rfl)
        · have hnew : subs (n.setChild i (some m)) (n.pre ++ c :: key) = subs m key := by
            rw [← pre_setChild n i (some m), subs_pre_cons,
              next_setChild_self (some m) hi (hok.branch.slot_lt hi)]
            rfl
          refine Or.inr ⟨n.setChild i (some m), if r = 0 then 0 else 1, ?_, n.pre ++ c :: key, s',
            ?_, ?_, by rwa [hnew]⟩
          · rw [hu, Option.bind_some]
            split <;> rfl
          · intro h
            exact hkey (List.cons.inj (List.append_cancel_left h)).2
          · rw [subs_pre_cons, hc]
            exact hs'

end DoubleDecker.Trie
