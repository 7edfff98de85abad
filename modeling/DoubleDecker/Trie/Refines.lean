import DoubleDecker.Trie.Unsubscribe
import Mathlib.Data.Set.Insert

/-!
# Trie/Refines — the trie as a set of pairs

A trie stands for the set of the pairs (topic, socket id) subscribed to it.  `nn_trie_subscribe` and
`nn_trie_unsubscribe` act on the set as insertion and removal, `nn_trie_tree` reads the socket ids
whose topic is a prefix of the string — in every run that stays away from the two conversions that
drop a node's list (`safeFrom`).
-/

namespace DoubleDecker.Trie

/-! ## `nn_trie_tree` -/

theorem mem_zlistAppendUnique {l : List Frame} {x s : Frame} :
    s ∈ zlistAppendUnique l x ↔ s ∈ l ∨ s = x := by
  unfold zlistAppendUnique
  split
  · next h => exact ⟨Or.inl, fun h' => h'.elim id fun he => he ▸ h⟩
  · simp

theorem nodup_zlistAppendUnique {l : List Frame} (h : l.Nodup) (x : Frame) :
    (zlistAppendUnique l x).Nodup := by
  unfold zlistAppendUnique
  split
  · exact h
  · next hx => exact List.nodup_append.mpr ⟨h, List.nodup_singleton x, by
      intro a ha b hb hab
      rw [List.mem_singleton.mp hb] at hab
      exact hx (hab ▸ ha)⟩

theorem mem_foldl_appendUnique {s : Frame} : ∀ {l acc : List Frame},
    s ∈ l.foldl zlistAppendUnique acc ↔ s ∈ acc ∨ s ∈ l
  | [], acc => by simp
  | x :: l, acc => by
    rw [List.foldl_cons, mem_foldl_appendUnique, mem_zlistAppendUnique, List.mem_cons, or_assoc]

theorem nodup_foldl_appendUnique : ∀ {l acc : List Frame}, acc.Nodup →
    (l.foldl zlistAppendUnique acc).Nodup
  | [], _, h => h
  | x :: l, _, h => nodup_foldl_appendUnique (l := l) (nodup_zlistAppendUnique h x)

/-- The list collected from a node and the list it leaves. -/
structure Collected (pub pub' : Option (List Frame)) (new : Set Frame) : Prop where
  mem : ∀ s, s ∈ pub'.getD [] ↔ s ∈ pub.getD [] ∨ s ∈ new
  nodup : (pub.getD []).Nodup → (pub'.getD []).Nodup
  null : pub' = none ↔ pub = none ∧ new = ∅

theorem Collected.nothing (pub : Option (List Frame)) : Collected pub pub ∅ :=
  ⟨by simp, id, by simp⟩

theorem Collected.trans {p q r : Option (List Frame)} {A B C : Set Frame} (h : Collected p q A)
    (h' : Collected q r B) (hC : ∀ s, s ∈ C ↔ s ∈ A ∨ s ∈ B) : Collected p r C := by
  refine ⟨fun s => by rw [h'.mem, h.mem, hC, or_assoc], fun hp => h'.nodup (h.nodup hp), ?_⟩
  have : C = A ∪ B := Set.ext hC
  rw [h'.null, h.null, this, Set.union_empty_iff, and_assoc]

/-- The subscribers of the keys that are a prefix of the data. -/
def matching (n : Node) (data : List UInt8) : Set Frame := {s | ∃ p, p <+: data ∧ s ∈ subs n p}

theorem matching_off {n : Node} {data : List UInt8} (h : ¬ n.pre <+: data) :
    matching n data = ∅ := by
  refine Set.eq_empty_of_forall_notMem ?_
  rintro s ⟨p, hp, hs⟩
  rw [subs_off fun hn => h (hn.trans hp)] at hs
  exact absurd hs List.not_mem_nil

theorem mem_matching_pre {n : Node} {s : Frame} : s ∈ matching n n.pre ↔ s ∈ n.live := by
  constructor
  · rintro ⟨p, hp, hs⟩
    by_cases h : n.pre <+: p
    · have : p = n.pre := hp.eq_of_length_le h.length_le
      rwa [this, subs_pre] at hs
    · rw [subs_off h] at hs
      exact absurd hs List.not_mem_nil
  · exact fun hs => ⟨n.pre, List.prefix_refl _, by rwa [subs_pre]⟩

theorem mem_matching_cons {n : Node} {c : UInt8} {rest : List UInt8} {s : Frame} :
    s ∈ matching n (n.pre ++ c :: rest) ↔
      s ∈ n.live ∨ ∃ ch, n.next c = some ch ∧ s ∈ matching ch rest := by
  constructor
  · rintro ⟨p, hp, hs⟩
    rcases key_cases n p with h | rfl | ⟨c', p', rfl⟩
    · rw [subs_off h] at hs
      exact absurd hs List.not_mem_nil
    · rw [subs_pre] at hs
      exact Or.inl hs
    · rw [List.prefix_append_right_inj, List.cons_prefix_cons] at hp
      obtain ⟨rfl, hp⟩ := hp
      rw [subs_pre_cons] at hs
      cases hc : n.next c' with
      | none => rw [hc] at hs; exact absurd hs List.not_mem_nil
      | some ch => rw [hc] at hs; exact Or.inr ⟨ch, rfl, p', hp, hs⟩
  · rintro (hs | ⟨ch, hc, p, hp, hs⟩)
    · exact ⟨n.pre, List.prefix_append _ _, by rwa [subs_pre]⟩
    · refine ⟨n.pre ++ c :: p, ?_, by rw [subs_pre_cons, hc]; exact hs⟩
      rw [List.prefix_append_right_inj, List.cons_prefix_cons]
      exact ⟨rfl, hp⟩

/-- **One node of `nn_trie_tree`**: its own list is collected. -/
theorem collect_spec {n : Node} (hok : NodeOk n) (pub : Option (List Frame)) :
    ∃ pub', collect n pub = some pub' ∧ Collected pub pub' {s | s ∈ n.live} := by
  unfold collect
  by_cases h0 : n.refcount = 0
  · refine ⟨pub, by simp [nnNodeHasSubscribers, h0], ?_⟩
    rw [live_of_refcount h0]
    simpa using Collected.nothing pub
  · have hsub : nnNodeHasSubscribers n = true := by simpa [nnNodeHasSubscribers] using h0
    have hsock := hok.socks
    unfold SocksOk at hsock
    cases hl : n.sockids with
    | null => simp only [hl] at hsock; exact absurd hsock h0
    | uninit => simp only [hl] at hsock; exact absurd hsock h0
    | list l =>
      simp only [hl] at hsock
      have hlive := hok.socks.live_eq hl
      have hne : l ≠ [] := by
        rintro rfl
        exact h0 (UInt32.toNat_inj.mp hsock.2)
      obtain ⟨x, hx⟩ := List.exists_mem_of_ne_nil l hne
      refine ⟨_, by rw [if_pos hsub], fun s => ?_, nodup_foldl_appendUnique, ?_⟩
      · rw [Option.getD_some, mem_foldl_appendUnique, hlive]; rfl
      · rw [hlive]
        exact ⟨(absurd · (by simp)), fun h => absurd (h.2 ▸ hx : x ∈ (∅ : Set Frame))
          (Set.notMem_empty x)⟩

/-- **One turn of `nn_trie_tree` on the list.** -/
theorem treeFrom_eq (n : Node) (data : List UInt8) (pub : Option (List Frame)) :
    treeFrom n data pub =
      if n.pre <+: data then
        (collect n pub).bind fun pub =>
          match data.drop n.pre.length with
          | [] => if (n.next 0).isSome then none else some pub
          | c :: rest => ((n.next c).map (treeFrom · rest pub)).getD (some pub)
      else some pub := by
  rw [treeFrom]
  simp only [ne_eq, nnNodeCheckPrefix_eq_iff, ite_not]
  split
  · cases collect n pub with
    | none => rfl
    | some pub' =>
      simp only [Option.bind_eq_bind, Option.bind_some]
      split
      · next h =>
        rw [h]
        cases hc : (nnNodeNext n 0).bind n.at <;> simp [Node.next, hc]
      · next c rest h =>
        rw [h]
        cases hc : (nnNodeNext n c).bind n.at <;> simp [Node.next, hc]
  · rfl

/-- **`nn_trie_tree` collects the subscribers of every prefix**, each once. -/
theorem treeFrom_spec {n : Node} (hn : WF n) : ∀ {data : List UInt8} (pub : Option (List Frame)),
    0 ∉ data → ∃ pub', treeFrom n data pub = some pub' ∧ Collected pub pub' (matching n data) := by
  induction hn with
  | @mk n hok hkids ih =>
  intro data pub hnul
  obtain ⟨pub', hpub, hcol⟩ := collect_spec hok pub
  rw [treeFrom_eq, hpub, Option.bind_some]
  rcases key_cases n data with hpre | rfl | ⟨c, rest, rfl⟩
  · rw [if_neg hpre, matching_off hpre]
    exact ⟨pub, rfl, Collected.nothing pub⟩
  · have hnext : n.next 0 = none := by rw [Node.next, hok.branch.next_zero]; rfl
    rw [if_pos (List.prefix_refl _), List.drop_length]
    refine ⟨pub', by simp [hnext], ?_⟩
    rwa [show matching n n.pre = {s | s ∈ n.live} from Set.ext fun _ => mem_matching_pre]
  · rw [if_pos (List.prefix_append _ _), List.drop_left]
    cases hc : n.next c with
    | none =>
      refine ⟨pub', by simp [hc], hcol.trans (Collected.nothing _) fun s => ?_⟩
      rw [mem_matching_cons, hc]
      simp
    | some ch =>
      obtain ⟨pub'', htree, hcol'⟩ := ih ch (mem_child_of_next hc) pub'
        fun h => hnul (List.mem_append_right _ (List.mem_cons_of_mem _ h))
      refine ⟨pub'', by simpa [hc] using htree, hcol.trans hcol' fun s => ?_⟩
      rw [mem_matching_cons, hc]
      simp

/-- **The lookup on a trie that may be empty.** -/
theorem nnTrieTree_spec {root : Option Node} (h : Shaped root) {x : List UInt8} (hx : 0 ∉ x) :
    ∃ l, nnTrieTree root x = some l ∧ (l.getD []).Nodup ∧
      (∀ s, s ∈ l.getD [] ↔ ∃ p, p <+: x ∧ s ∈ held root p) ∧
      (l = none ↔ ∀ p s, p <+: x → s ∉ held root p) := by
  cases root with
  | none => exact ⟨none, rfl, List.nodup_nil, by simp, by simp⟩
  | some n =>
    obtain ⟨l, hl, hcol⟩ := treeFrom_spec (h n rfl) none hx
    refine ⟨l, hl, hcol.nodup List.nodup_nil, fun s => ?_, ?_⟩
    · rw [hcol.mem]
      simp [matching]
    · rw [hcol.null, Set.eq_empty_iff_forall_notMem]
      constructor
      · exact fun h p s hp hs => h.2 s ⟨p, hp, hs⟩
      · exact fun h => ⟨rfl, fun s ⟨p, hp, hs⟩ => h p s hp hs⟩

/-! ## Runs -/

/-- An operation on the trie. -/
inductive Op where
  | subscribe (topic : List UInt8) (sockid : Frame)
  | unsubscribe (topic : List UInt8) (sockid : Frame)
  deriving DecidableEq

/-- The operation as the code performs it. -/
def Op.exec (root : Option Node) : Op → Option (Option Node)
  | .subscribe t s => (nnTrieSubscribe root t s).map Prod.fst
  | .unsubscribe t s => (nnTrieUnsubscribe root t s).map Prod.fst

/-- The operation on the set of subscribed pairs. -/
def Op.apply (pairs : Set (List UInt8 × Frame)) : Op → Set (List UInt8 × Frame)
  | .subscribe t s => insert (t, s) pairs
  | .unsubscribe t s => pairs \ {(t, s)}

/-- The calls the caller may make: topics are nonempty strings, and only a subscribed pair is
unsubscribed. -/
def Op.Allowed (pairs : Set (List UInt8 × Frame)) : Op → Prop
  | .subscribe t _ => t ≠ [] ∧ 0 ∉ t
  | .unsubscribe t s => (t, s) ∈ pairs

/-- The operation takes none of the branches that lose or misread a list. -/
def Op.safe (root : Option Node) : Op → Bool
  | .subscribe t s => root.all (subscribeSafe · t s)
  | .unsubscribe t _ => root.all (unsubscribeSafe · t)

/-- A sequence of operations. -/
def exec (root : Option Node) : List Op → Option (Option Node)
  | [] => some root
  | op :: ops => (op.exec root).bind (exec · ops)

/-- The pairs subscribed after a sequence of operations. -/
def pairsAfter (pairs : Set (List UInt8 × Frame)) : List Op → Set (List UInt8 × Frame)
  | [] => pairs
  | op :: ops => pairsAfter (op.apply pairs) ops

def AllowedFrom (pairs : Set (List UInt8 × Frame)) : List Op → Prop
  | [] => True
  | op :: ops => op.Allowed pairs ∧ AllowedFrom (op.apply pairs) ops

/-- Every operation is safe in the trie it meets. -/
def safeFrom (root : Option Node) : List Op → Bool
  | [] => true
  | op :: ops => op.safe root && (op.exec root).all (safeFrom · ops)

/-- The trie holds exactly the pairs. -/
structure Holds (root : Option Node) (pairs : Set (List UInt8 × Frame)) : Prop where
  shaped : Shaped root
  mem : ∀ p s, s ∈ held root p ↔ (p, s) ∈ pairs

theorem holds_empty : Holds none ∅ := ⟨shaped_none, by simp⟩

/-- **Subscribing inserts the pair**, into an empty trie as into any other. -/
theorem nnTrieSubscribe_spec {root : Option Node} {t : List UInt8} {s : Frame} (h : Shaped root)
    (ht : 0 ∉ t) (hsafe : (Op.subscribe t s).safe root) :
    ∃ n r, nnTrieSubscribe root t s = some (some n, r) ∧ WF n ∧ (r = 2 ↔ s ∉ held root t) ∧
      ∀ key, subs n key =
        if key = t then zlistAppendUnique (held root key) s else held root key := by
  cases root with
  | none =>
    obtain ⟨n, hn, hwf, hs⟩ := nnTrieSubscribe_none s ht
    exact ⟨n, 2, hn, hwf, by simp, fun key => by rw [hs, held_none]; rfl⟩
  | some m =>
    obtain ⟨n, r, hn, hwf, hr, hs⟩ := subscribeFrom_spec (h m rfl) ht
      (by simpa [Op.safe] using hsafe)
    exact ⟨n, r, by rw [nnTrieSubscribe]; simp [hn], hwf, hr, hs⟩

/-- **Unsubscribing removes the pair.** -/
theorem nnTrieUnsubscribe_spec {root : Option Node} {t : List UInt8} {s : Frame} (h : Shaped root)
    (hs : s ∈ held root t) (hsafe : (Op.unsubscribe t s).safe root) :
    ∃ root' r, nnTrieUnsubscribe root t s = some (root', r) ∧ Shaped root' ∧
      ∀ key, held root' key = if key = t then (held root key).erase s else held root key := by
  cases root with
  | none => exact absurd hs List.not_mem_nil
  | some n =>
    obtain ⟨o, r, hu, -, -, hshape, hheld⟩ := nnNodeUnsubscribe_spec (h n rfl) hs
      (by simpa [Op.safe] using hsafe)
    exact ⟨o, r, hu, hshape, hheld⟩

/-- **An unsafe call** faults, or loses a pair of another topic. -/
theorem nnTrieUnsubscribe_unsafe {root : Option Node} {t : List UInt8} {s : Frame} (h : Shaped root)
    (hs : s ∈ held root t) (hsafe : ¬ (Op.unsubscribe t s).safe root) :
    nnTrieUnsubscribe root t s = none ∨
      ∃ root' r, nnTrieUnsubscribe root t s = some (root', r) ∧
        ∃ key s', key ≠ t ∧ s' ∈ held root key ∧ s' ∉ held root' key := by
  cases root with
  | none => exact absurd hs List.not_mem_nil
  | some n =>
    obtain hu | ⟨m, r, hu, hlost⟩ :=
      nnNodeUnsubscribe_unsafe (h n rfl) hs (by simpa [Op.safe] using hsafe)
    · exact Or.inl hu
    · exact Or.inr ⟨some m, r, hu, hlost⟩

/-- **One operation refines insertion or removal.** -/
theorem Op.exec_spec {root : Option Node} {pairs : Set (List UInt8 × Frame)} {op : Op}
    (h : Holds root pairs) (hallowed : op.Allowed pairs) (hsafe : op.safe root) :
    ∃ root', op.exec root = some root' ∧ Holds root' (op.apply pairs) := by
  cases op with
  | subscribe t s =>
    obtain ⟨n, r, hn, hwf, -, hs⟩ := nnTrieSubscribe_spec h.shaped hallowed.2 hsafe
    refine ⟨some n, by rw [Op.exec, hn]; rfl, shaped_some hwf, fun p s' => ?_⟩
    rw [held_some, hs, Op.apply, Set.mem_insert_iff, Prod.mk.injEq, ← h.mem]
    split
    · next hp => rw [mem_zlistAppendUnique, or_comm]; simp [hp]
    · next hp => simp [hp]
  | unsubscribe t s =>
    have hmem : s ∈ held root t := (h.mem t s).mpr hallowed
    obtain ⟨root', r, hu, hshape, hheld⟩ := nnTrieUnsubscribe_spec h.shaped hmem hsafe
    refine ⟨root', by rw [Op.exec, hu]; rfl, hshape, fun p s' => ?_⟩
    rw [hheld, Op.apply, Set.mem_sdiff, Set.mem_singleton_iff, Prod.mk.injEq, ← h.mem]
    split
    · next hp => rw [(h.shaped.nodup p).mem_erase_iff]; simp [hp, and_comm]
    · next hp => simp [hp]

/-- **A run refines the set of pairs.** -/
theorem exec_spec {root : Option Node} {pairs : Set (List UInt8 × Frame)} (h : Holds root pairs) :
    ∀ {ops : List Op}, AllowedFrom pairs ops → safeFrom root ops →
      ∃ root', exec root ops = some root' ∧ Holds root' (pairsAfter pairs ops) := by
  intro ops
  induction ops generalizing root pairs with
  | nil => exact fun _ _ => ⟨root, rfl, h⟩
  | cons op ops ih =>
    rintro ⟨hop, hops⟩ hsafe
    rw [safeFrom, Bool.and_eq_true] at hsafe
    obtain ⟨root₁, h₁, hholds⟩ := Op.exec_spec h hop hsafe.1
    obtain ⟨root', h', hholds'⟩ := ih hholds hops (by simpa [h₁] using hsafe.2)
    exact ⟨root', by rw [exec, h₁]; exact h', hholds'⟩

/-- **What `nn_trie_tree` returns for a set of pairs** — the socket ids paired with a prefix of the
string, each once, and `NULL` when there is none. -/
def Answers (root : Option Node) (pairs : Set (List UInt8 × Frame)) (x : List UInt8) : Prop :=
  ∃ l, nnTrieTree root x = some l ∧ (l.getD []).Nodup ∧
    (∀ s, s ∈ l.getD [] ↔ ∃ p, p <+: x ∧ (p, s) ∈ pairs) ∧
    (l = none ↔ ∀ p s, p <+: x → (p, s) ∉ pairs)

theorem Holds.answers {root : Option Node} {pairs : Set (List UInt8 × Frame)} (h : Holds root pairs)
    {x : List UInt8} (hx : 0 ∉ x) : Answers root pairs x := by
  obtain ⟨l, hl, hnd, hmem, hnull⟩ := nnTrieTree_spec h.shaped hx
  refine ⟨l, hl, hnd, fun s => ?_, ?_⟩
  · rw [hmem]
    exact exists_congr fun p => and_congr_right fun _ => h.mem p s
  · rw [hnull]
    exact forall₂_congr fun p s => imp_congr_right fun _ => not_congr (h.mem p s)

/-- **The trie refines the set of pairs** — after every allowed run that takes none of the bad
branches, whatever was split, converted or compacted on the way. -/
theorem exec_answers (ops : List Op) (hallowed : AllowedFrom ∅ ops) (hsafe : safeFrom none ops) :
    ∃ root, exec none ops = some root ∧ ∀ x, 0 ∉ x → Answers root (pairsAfter ∅ ops) x := by
  obtain ⟨root, hexec, hholds⟩ := exec_spec holds_empty hallowed hsafe
  exact ⟨root, hexec, fun x hx => hholds.answers hx⟩

/-- Nine keys below `a`, converted to a dense node and back while `a` has no subscriber. -/
def thereAndBack : List Op :=
  (List.range 9).map (fun i => .subscribe [97, 98 + UInt8.ofNat i] [1]) ++
    [.subscribe [98] [2], .unsubscribe [97, 100] [1]]

theorem exec_answers_thereAndBack :
    ∃ root, exec none thereAndBack = some root ∧
      ∀ x, 0 ∉ x → Answers root (pairsAfter ∅ thereAndBack) x := by
  refine exec_answers thereAndBack ?_ (by decide +kernel)
  simp [thereAndBack, List.range, List.range.loop, AllowedFrom, Op.Allowed, Op.apply]

/-- A subscriber of `a`, then nine keys below it: the conversion to a dense node drops the list. -/
def nineBelow : List Op :=
  .subscribe [97] [1] :: (List.range 9).map fun i => .subscribe [97, 98 + UInt8.ofNat i] [2]

theorem not_exec_answers : ¬ ∀ ops, AllowedFrom ∅ ops →
    ∃ root, exec none ops = some root ∧ ∀ x, 0 ∉ x → Answers root (pairsAfter ∅ ops) x := by
  intro h
  obtain ⟨root, hexec, hans⟩ := h nineBelow (by
    simp [nineBelow, List.range, List.range.loop, AllowedFrom, Op.Allowed])
  obtain ⟨l, hl, -, -, hnull⟩ := hans [97] (by decide)
  -- the lookup of `a` finds nobody
  have hnone : (exec none nineBelow).bind (nnTrieTree · [97]) = some none := by decide +kernel
  rw [hexec, Option.bind_some, hl, Option.some.injEq] at hnone
  refine hnull.mp hnone [97] [1] (List.prefix_refl _) ?_
  simp [nineBelow, List.range, List.range.loop, pairsAfter, Op.apply]

end DoubleDecker.Trie
