import DoubleDecker.Trie.Refines

/-!
# Trie/Absent — unsubscribing a pair that is not subscribed

`nn_node_unsubscribe` looks at the socket id only when it takes it out of a list, after the
reference count went down, and takes every return value but 0 for a removal.  So an absent pair does
no harm exactly when the walk ends in front of a list with no count (`absentSafe`), and a run in
which every such call does goes as if the calls were not made.
-/

namespace DoubleDecker.Trie

/-! ## The condition -/

/-- **The walk leaves the trie alone**: it meets no `NULL`, and where it ends at a node — that of
the topic, or the child behind its last byte whatever prefix the child has — nobody is counted. -/
def absentSafe (self : Option Node) (data : List UInt8) : Bool :=
  match self with
  | none => false
  | some n =>
    if data = [] then n.refcount = 0
    else if nnNodeCheckPrefix n.pre data ≠ n.pre.length then true
    else
      match _h : data.drop n.pre.length with
      | [] => n.refcount = 0
      | c :: rest =>
        match nnNodeNext n c with
        | none => true
        | some i => absentSafe (n.at i) rest
termination_by data.length
decreasing_by
  have := congrArg List.length _h
  simp only [List.length_drop, List.length_cons] at this
  omega

@[simp] theorem absentSafe_none (data : List UInt8) : absentSafe none data = false := by
  rw [absentSafe]

@[simp] theorem absentSafe_nil (n : Node) :
    absentSafe (some n) [] = decide (n.refcount = 0) := by
  rw [absentSafe, if_pos rfl]

theorem absentSafe_off {n : Node} {data : List UInt8} (h : ¬ n.pre <+: data) (hd : data ≠ []) :
    absentSafe (some n) data = true := by
  rw [absentSafe, if_neg hd, if_pos fun hp => h (nnNodeCheckPrefix_eq_iff.mp hp)]

theorem absentSafe_pre (n : Node) : absentSafe (some n) n.pre = decide (n.refcount = 0) := by
  rw [absentSafe]
  split
  · rfl
  · rw [if_neg (not_not.mpr (nnNodeCheckPrefix_eq_iff.mpr (List.prefix_refl _)))]
    split
    · rfl
    · next h => rw [List.drop_length] at h; cases h

theorem absentSafe_cons (n : Node) (c : UInt8) (rest : List UInt8) :
    absentSafe (some n) (n.pre ++ c :: rest) =
      (nnNodeNext n c).all fun i => absentSafe (n.at i) rest := by
  rw [absentSafe, if_neg (by simp), if_neg (not_not.mpr (nnNodeCheckPrefix_append _ _))]
  split
  · next h => rw [List.drop_left] at h; cases h
  · next c' rest' h =>
    rw [List.drop_left, List.cons.injEq] at h
    obtain ⟨rfl, rfl⟩ := h
    cases nnNodeNext n c <;> rfl

/-! ## One call -/

theorem nnNodeUnsubscribe_off {n : Node} {data : List UInt8} (s : Frame) (h : ¬ n.pre <+: data)
    (hd : data ≠ []) : nnNodeUnsubscribe (some n) data s = some (some n, 0) := by
  rw [nnNodeUnsubscribe, if_neg hd]
  simp only [if_pos fun hp => h (nnNodeCheckPrefix_eq_iff.mp hp)]

theorem nnNodeUnsubscribe_cons_none {n : Node} {c : UInt8} (rest : List UInt8) (s : Frame)
    (hc : nnNodeNext n c = none) :
    nnNodeUnsubscribe (some n) (n.pre ++ c :: rest) s = some (some n, 0) := by
  rw [nnNodeUnsubscribe, if_neg (by simp)]
  simp only [nnNodeCheckPrefix_append, ne_eq, not_true_eq_false, if_false]
  split
  · next h => rw [List.drop_left] at h; cases h
  · next c' rest' h =>
    rw [List.drop_left, List.cons.injEq] at h
    obtain ⟨rfl, rfl⟩ := h
    simp only [hc]

theorem setChild_at (n : Node) (i : Nat) : n.setChild i (n.at i) = n := by
  unfold Node.setChild
  have hset : n.child.set i (n.at i) = n.child := by
    refine List.ext_getElem? fun j => ?_
    rw [List.getElem?_set]
    split
    · next h =>
      subst h
      split
      · next hi => rw [Node.at, List.getElem?_eq_getElem hi]; rfl
      · next hi => rw [List.getElem?_eq_none (Nat.le_of_not_lt hi)]
    · rfl
  rw [hset]
  cases n; rfl

theorem found_uncounted {n : Node} (s : Frame) (h : n.refcount = 0) :
    found (some n) s = some (some n, eInval) := by
  simp [found, nnNodeHasSubscribers, h]

/-- **Where the condition holds the trie stays as it was**, whatever is returned. -/
theorem nnNodeUnsubscribe_absent {self : Option Node} {data : List UInt8}
    (h : absentSafe self data) (s : Frame) :
    ∃ r, nnNodeUnsubscribe self data s = some (self, r) := by
  induction hlen : data.length using Nat.strong_induction_on generalizing self data with
  | h len ih =>
  cases self with
  | none => simp at h
  | some n =>
    by_cases hd : data = []
    · subst hd
      rw [absentSafe_nil, decide_eq_true_eq] at h
      exact ⟨eInval, by rw [nnNodeUnsubscribe, if_pos rfl, found_uncounted s h]⟩
    rcases key_cases n data with hpre | rfl | ⟨c, rest, rfl⟩
    · exact ⟨0, nnNodeUnsubscribe_off s hpre hd⟩
    · rw [absentSafe_pre, decide_eq_true_eq] at h
      exact ⟨eInval, by rw [nnNodeUnsubscribe_pre, found_uncounted s h]⟩
    · cases hc : nnNodeNext n c with
      | none => exact ⟨0, nnNodeUnsubscribe_cons_none rest s hc⟩
      | some i =>
        rw [absentSafe_cons, hc, Option.all_some] at h
        obtain ⟨r, hr⟩ := ih rest.length
          (by rw [← hlen, List.length_append, List.length_cons]; omega) h rfl
        have hsome : (n.at i).isSome := by
          cases hat : n.at i with
          | none => rw [hat, absentSafe_none] at h; cases h
          | some ch => rfl
        refine ⟨if r = 0 then 0 else 1, ?_⟩
        rw [nnNodeUnsubscribe_cons rest s hc, hr, Option.bind_some, setChild_at]
        simp only [hsome, if_true]
        split <;> rfl

/-! ## Where the condition fails the trie changes -/

theorem nnNodeCompact_cases {n m : Node} (h : nnNodeCompact n = some m) :
    m = n ∨ n.refcount = 0 ∧ n.pre.length < m.pre.length := by
  unfold nnNodeCompact at h
  split at h
  · exact Or.inl (Option.some.inj h).symm
  · next hsub =>
    have h0 : n.refcount = 0 := by simpa [nnNodeHasSubscribers] using hsub
    split at h
    · split at h
      · cases h
      · split at h
        · exact Or.inl (Option.some.inj h).symm
        · cases h
          refine Or.inr ⟨h0, ?_⟩
          rw [List.length_append, List.length_cons]
          omega
    · exact Or.inl (Option.some.inj h).symm

theorem refcount_pred_ne (a : UInt32) : a - 1 ≠ a := by grind

theorem nbr_pred_ne (a : UInt16) : a - 1 ≠ a := by grind

/-- A count taken down shows. -/
theorem found_counted {n : Node} {s : Frame} {o : Option Node} {r : Int} (h0 : n.refcount ≠ 0)
    (h : found (some n) s = some (o, r)) : o ≠ some n := by
  have hsub : nnNodeHasSubscribers n = true := by simpa [nnNodeHasSubscribers] using h0
  simp only [found, hsub, Bool.not_true, Bool.false_eq_true, if_false] at h
  split at h
  · split at h
    · split at h
      · cases h; simp
      · obtain ⟨m, hm, h⟩ := Option.bind_eq_some_iff.mp h
        cases h
        intro hn
        rw [Option.some.inj hn] at hm
        obtain hm | ⟨-, hm⟩ := nnNodeCompact_cases hm
        · exact refcount_pred_ne _ (congrArg Node.refcount hm).symm
        · exact absurd hm (Nat.lt_irrefl _)
    · cases h
      intro hn
      exact refcount_pred_ne _ (congrArg Node.refcount (Option.some.inj hn))
  · cases h

/-- A child taken out shows. -/
theorem prune_ne {n : Node} {x : Option Node} {i : Nat} {c : UInt8} {o : Option Node}
    (hc : nnNodeNext n c = some i) (h : prune (n.setChild i x) i c = some o) : o ≠ some n := by
  simp only [prune] at h
  split at h
  · next cs hu =>
    have hu : n.u = .sparse cs := hu
    have hi : i < cs.length := by
      rw [nnNodeNext, hu] at hc
      exact (List.idxOf?_eq_some_iff.mp hc).1
    split at h
    · split at h
      · cases h
      · cases h; simp
    · obtain ⟨m, hm, rfl⟩ := Option.map_eq_some_iff.mp h
      intro hn
      rw [Option.some.inj hn] at hm
      obtain hm | ⟨-, hm⟩ := nnNodeCompact_cases hm
      · have hcs := congrArg Node.u hm
        rw [hu, Branch.sparse.injEq] at hcs
        have := congrArg List.length hcs
        rw [List.length_eraseIdx_of_lt hi] at this
        omega
      · exact absurd hm (Nat.lt_irrefl _)
  · next mn mx nbr hu =>
    have hu : n.u = .dense mn mx nbr := hu
    have hnbr : ∀ mn' mx' m, some m = o → m.u = .dense mn' mx' (nbr - 1) → o ≠ some n := by
      rintro mn' mx' m rfl hm hn
      rw [Option.some.inj hn, hu, Branch.dense.injEq] at hm
      exact nbr_pred_ne nbr hm.2.2.symm
    split at h
    · split at h
      · exact hnbr _ _ _ (Option.some.inj h) rfl
      · split at h
        · exact hnbr _ _ _ (Option.some.inj h) rfl
        · exact hnbr _ _ _ (Option.some.inj h) rfl
    · split at h
      · cases h
        intro hn
        have := congrArg Node.u (Option.some.inj hn)
        rw [hu] at this
        cases this
      · cases h

theorem nnNodeUnsubscribe_null {data : List UInt8} {s : Frame} {o : Option Node} {r : Int}
    (h : nnNodeUnsubscribe none data s = some (o, r)) : o = none ∧ r = eInval := by
  rw [nnNodeUnsubscribe] at h
  split at h
  · cases h
    exact ⟨rfl, rfl⟩
  · cases h

/-- **Where the condition fails a call on a node that returns has changed it.** -/
theorem nnNodeUnsubscribe_changes {n : Node} {self' : Option Node} {data : List UInt8} {s : Frame}
    {r : Int} (h : ¬ absentSafe (some n) data)
    (hu : nnNodeUnsubscribe (some n) data s = some (self', r)) : self' ≠ some n := by
  induction hlen : data.length using Nat.strong_induction_on generalizing n self' data r with
  | h len ih =>
  by_cases hd : data = []
  · subst hd
    rw [nnNodeUnsubscribe, if_pos rfl] at hu
    exact found_counted (by simpa using h) hu
  rcases key_cases n data with hpre | rfl | ⟨c, rest, rfl⟩
  · exact absurd (absentSafe_off hpre hd) h
  · rw [nnNodeUnsubscribe_pre] at hu
    exact found_counted (by simpa [absentSafe_pre] using h) hu
  · cases hc : nnNodeNext n c with
    | none => rw [absentSafe_cons, hc] at h; exact absurd rfl h
    | some i =>
      rw [absentSafe_cons, hc, Option.all_some] at h
      rw [nnNodeUnsubscribe_cons rest s hc] at hu
      obtain ⟨⟨ch', r'⟩, hu', hu⟩ := Option.bind_eq_some_iff.mp hu
      cases hat : n.at i with
      | none =>
        -- the slot is empty, and its error code is taken for a removal
        rw [hat] at hu'
        obtain ⟨rfl, rfl⟩ := nnNodeUnsubscribe_null hu'
        obtain ⟨o, ho, hu⟩ := Option.map_eq_some_iff.mp hu
        cases hu
        exact prune_ne hc ho
      | some ch =>
        rw [hat] at h hu'
        have hch := ih rest.length
          (by rw [← hlen, List.length_append, List.length_cons]; omega) h hu' rfl
        have hset : some (n.setChild i ch') ≠ some n := by
          intro hn
          have hi : i < n.child.length := by
            by_contra hi
            rw [Node.at, List.getElem?_eq_none (Nat.le_of_not_lt hi)] at hat
            cases hat
          have := at_setChild_self ch' hi
          rw [Option.some.inj hn, hat] at this
          exact hch this.symm
        simp only at hu
        split at hu
        · cases hu; exact hset
        · split at hu
          · cases hu; exact hset
          · obtain ⟨o, ho, hu⟩ := Option.map_eq_some_iff.mp hu
            cases hu
            exact prune_ne hc ho

/-- **The condition is exact**: it says when the call returns with the trie as it was. -/
theorem absentSafe_iff {root : Option Node} {t : List UInt8} (ht : t ≠ []) (s : Frame) :
    (∃ r, nnTrieUnsubscribe root t s = some (root, r)) ↔ absentSafe root t := by
  constructor
  · rintro ⟨r, hr⟩
    by_contra h
    cases root with
    | none => rw [nnTrieUnsubscribe, nnNodeUnsubscribe, if_neg ht] at hr; cases hr
    | some n => exact nnNodeUnsubscribe_changes h hr rfl
  · exact fun h => nnNodeUnsubscribe_absent h s

/-! ## Runs -/

/-- The operation unsubscribes a pair that is not there, of a nonempty topic. -/
def Op.Absent (pairs : Set (List UInt8 × Frame)) : Op → Prop
  | .subscribe _ _ => False
  | .unsubscribe t s => t ≠ [] ∧ (t, s) ∉ pairs

/-- Every unsubscription of an absent pair meets the condition in the trie it is called on. -/
def AbsentSafe (root : Option Node) (pairs : Set (List UInt8 × Frame)) : List Op → Prop
  | [] => True
  | op :: ops =>
    (∀ t s, op = .unsubscribe t s → op.Absent pairs → absentSafe root t) ∧
      ∀ root', op.exec root = some root' → AbsentSafe root' (op.apply pairs) ops

/-- The second sequence is the first without some of the unsubscriptions of absent pairs. -/
inductive LeavesOut : Set (List UInt8 × Frame) → List Op → List Op → Prop
  | nil (pairs) : LeavesOut pairs [] []
  | keep {pairs ops ops'} (op : Op) :
    LeavesOut (op.apply pairs) ops ops' → LeavesOut pairs (op :: ops) (op :: ops')
  | leave {pairs ops ops'} {op : Op} :
    op.Absent pairs → LeavesOut (op.apply pairs) ops ops' → LeavesOut pairs (op :: ops) ops'

/-- **The call does no harm**: it returns, and no lookup, now or after any further operations, tells
that it was made. -/
def Harmless (root : Option Node) (t : List UInt8) (s : Frame) : Prop :=
  ∃ root' r, nnTrieUnsubscribe root t s = some (root', r) ∧
    ∀ more x, (exec root' more).map (nnTrieTree · x) = (exec root more).map (nnTrieTree · x)

theorem Op.exec_absent {root : Option Node} {pairs : Set (List UInt8 × Frame)} {op : Op}
    (hop : op.Absent pairs)
    (h : ∀ t s, op = .unsubscribe t s → op.Absent pairs → absentSafe root t) :
    op.exec root = some root := by
  cases op with
  | subscribe t s => exact hop.elim
  | unsubscribe t s =>
    obtain ⟨r, hr⟩ := (absentSafe_iff hop.1 s).mpr (h t s rfl hop)
    rw [Op.exec, hr]; rfl

theorem AbsentSafe.exec_eq {pairs : Set (List UInt8 × Frame)} {ops ops' : List Op}
    (hout : LeavesOut pairs ops ops') {root : Option Node} (h : AbsentSafe root pairs ops) :
    exec root ops = exec root ops' := by
  induction hout generalizing root with
  | nil => rfl
  | keep op _ ih =>
    rw [exec, exec]
    cases hex : op.exec root with
    | none => rfl
    | some root' => exact ih (h.2 root' hex)
  | leave hop _ ih =>
    have hex := Op.exec_absent hop h.1
    rw [exec, hex]
    exact ih (h.2 root hex)

theorem AbsentSafe.of_append {before : List Op} : ∀ {root root' : Option Node}
    {pairs : Set (List UInt8 × Frame)} {ops : List Op}, AbsentSafe root pairs (before ++ ops) →
    exec root before = some root' → AbsentSafe root' (pairsAfter pairs before) ops := by
  induction before with
  | nil => rintro root root' pairs ops h ⟨⟩; exact h
  | cons op before ih =>
    intro root root' pairs ops h hex
    obtain ⟨root₁, h₁, hex⟩ := Option.bind_eq_some_iff.mp hex
    exact ih (h.2 root₁ h₁) hex

/-- **Absent pairs are unsubscribed without harm** in every run whose calls of this kind meet the
condition: each of them returns and goes unnoticed, and the run ends with the trie it would have
without them. -/
theorem absent_harmless {ops : List Op} (h : AbsentSafe none ∅ ops) :
    (∀ before t s after root, ops = before ++ .unsubscribe t s :: after →
        exec none before = some root → t ≠ [] → (t, s) ∉ pairsAfter ∅ before →
        Harmless root t s) ∧
      ∀ ops', LeavesOut ∅ ops ops' → exec none ops = exec none ops' := by
  refine ⟨?_, fun ops' hout => h.exec_eq hout⟩
  rintro before t s after root rfl hex ht hmem
  obtain ⟨r, hr⟩ := (absentSafe_iff ht s).mpr ((h.of_append hex).1 t s rfl ⟨ht, hmem⟩)
  exact ⟨root, r, hr, fun _ _ => rfl⟩

/-- Two calls of somebody who subscribed nothing: for the front of a topic, and for a longer one. -/
def strayCalls : List Op :=
  [.subscribe [97, 98] [1], .unsubscribe [97] [2], .unsubscribe [97, 98, 99] [2]]
theorem absent_harmless_strayCalls :
    exec none strayCalls = exec none [.subscribe [97, 98] [1]] := by
  refine (absent_harmless ?_).2 _ (.keep _ (.leave ?_ (.leave ?_ (.nil _))))
  · refine ⟨fun _ _ h => (by cases h), fun root h => ⟨?_, fun root' h' => ⟨?_, fun _ _ => trivial⟩⟩⟩
    · rintro t s ⟨⟩ -
      have hsafe : ((Op.subscribe [97, 98] [1]).exec none).all (absentSafe · [97]) := by
        decide +kernel
      rwa [h] at hsafe
    · rintro t s ⟨⟩ -
      have hsafe : (((Op.subscribe [97, 98] [1]).exec none).bind
          (Op.exec · (.unsubscribe [97] [2]))).all (absentSafe · [97, 98, 99]) := by
        decide +kernel
      rwa [h, Option.bind_some, h'] at hsafe
  · simp [Op.Absent, Op.apply]
  · simp [Op.Absent, Op.apply]

/-- A call for the topic of somebody else takes that subscription away. -/
theorem not_absent_harmless : ¬ ∀ ops root t s, exec none ops = some root → t ≠ [] →
    (t, s) ∉ pairsAfter ∅ ops → Harmless root t s := by
  intro h
  cases hex : exec none [.subscribe [97] [1]] with
  | none =>
    have hsome : (exec none [.subscribe [97] [1]]).isSome := by decide +kernel
    rw [hex] at hsome
    cases hsome
  | some root =>
    obtain ⟨root', r, hu, hlook⟩ := h [.subscribe [97] [1]] root [97] [2] hex (by decide)
      (by simp [pairsAfter, Op.apply])
    have hnow : nnTrieTree root' [97] = nnTrieTree root [97] := by simpa [exec] using hlook [] [97]
    have hbefore : (exec none [.subscribe [97] [1]]).bind
      (nnTrieTree · [97]) = some (some [[1]]) := by
      decide +kernel
    have hafter : ((exec none [.subscribe [97] [1]]).bind fun root =>
        (nnTrieUnsubscribe root [97] [2]).bind fun p => nnTrieTree p.1 [97]) = some none := by
      decide +kernel
    rw [hex, Option.bind_some] at hbefore
    rw [hex, Option.bind_some, hu, Option.bind_some, hnow, hbefore] at hafter
    cases hafter

end DoubleDecker.Trie
