import DoubleDecker.Trie.Absent

/-!
# Trie/Tight — what every trie keeps, whatever was lost

The bad branches of the two operations lose lists, counts and whole subtrees, and `WF` goes with
them.  What stays in every trie built by calls that returned is `Tight`: a node that counts
subscribers has a list, every label has a slot of the child array, and no prefix and no label holds
the terminating `NUL`.
-/

namespace DoubleDecker.Trie

/-- What one node keeps. -/
structure NodeTight (n : Node) : Prop where
  pre_nul : 0 ∉ n.pre
  socks : n.refcount ≠ 0 → ∃ l, n.sockids = .list l
  labels : LabelsOk n.u n.child

/-- **A tight trie**: every node in it is. -/
inductive Tight : Node → Prop
  | mk {n : Node} : NodeTight n → (∀ ch, some ch ∈ n.child → Tight ch) → Tight n

theorem Tight.node {n : Node} (h : Tight n) : NodeTight n := by cases h; assumption

theorem Tight.child {n ch : Node} (h : Tight n) (hc : some ch ∈ n.child) : Tight ch := by
  cases h with | mk _ hch => exact hch ch hc

theorem WF.tight {n : Node} (h : WF n) : Tight n := by
  induction h with
  | @mk n hok _ ih =>
    refine ⟨⟨hok.pre_nul, fun h0 => ?_, hok.branch.labels⟩, ih⟩
    have hsock := hok.socks
    unfold SocksOk at hsock
    split at hsock
    · next l hl => exact ⟨l, hl⟩
    · exact absurd hsock h0

/-- A trie that may be empty, tight. -/
def TightRoot (root : Option Node) : Prop := ∀ n, root = some n → Tight n

theorem tightRoot_none : TightRoot none := fun _ h => by cases h

theorem tightRoot_some {n : Node} (h : Tight n) : TightRoot (some n) := fun _ h' => by
  cases h'; exact h

/-- A tight node under another header. -/
theorem Tight.header {n m : Node} (h : Tight n) (hpre : m.pre = n.pre) (hu : m.u = n.u)
    (hchild : m.child = n.child) (hsocks : m.refcount ≠ 0 → ∃ l, m.sockids = .list l) :
      Tight m := by
  refine ⟨⟨by rw [hpre]; exact h.node.pre_nul, hsocks, ?_⟩, ?_⟩
  · rw [hu, hchild]; exact h.node.labels
  · rw [hchild]; exact fun ch hch => h.child hch

/-! ## The parts of `nn_trie_subscribe` -/

theorem nnNodeCompact_tight {n m : Node} (hn : Tight n) (h : nnNodeCompact n = some m) :
    Tight m := by
  unfold nnNodeCompact at h
  split at h
  · cases h; exact hn
  · split at h
    · next c hu =>
      split at h
      · cases h
      · next ch hat =>
        split at h
        · cases h; exact hn
        · cases h
          have hch : Tight ch := hn.child (mem_child_of_at hat)
          have hc : (0 : UInt8) ≠ c := by
            have hb := hn.node.labels
            rw [hu] at hb
            simpa using hb.2.2.2.1
          refine ⟨⟨?_, hch.node.socks, hch.node.labels⟩, fun ch' hch' => hch.child hch'⟩
          simp only [List.mem_append, List.mem_cons, not_or]
          exact ⟨hn.node.pre_nul, hc, hch.node.pre_nul⟩
    · cases h; exact hn

theorem step5_tight {n m : Node} {s : Frame} {r : Nat} (hn : Tight n)
    (h : step5 n s = some (m, r)) : Tight m := by
  unfold step5 at h
  split at h
  · cases h
  · cases h
    exact hn.header rfl rfl rfl fun _ => ⟨_, rfl⟩
  · next l hl =>
    split at h
    · cases h; exact hn
    · cases h
      exact hn.header rfl rfl rfl fun _ => ⟨_, rfl⟩

/-- A node with one child, without subscribers. -/
theorem tight_single {q : List UInt8} {x : UInt8} {ch : Node} (hq : 0 ∉ q) (hx : x ≠ 0)
    (hch : Tight ch) : Tight ⟨0, q, .null, .sparse [x], [some ch]⟩ := by
  refine ⟨⟨hq, (absurd rfl ·), ?_⟩, ?_⟩
  · exact ⟨List.nodup_singleton x, by simp [sparseMax], rfl, by simpa using hx.symm, by simp⟩
  · intro ch' hch'
    rw [List.mem_singleton, Option.some.injEq] at hch'
    exact hch' ▸ hch

theorem step4_tight {data : List UInt8} {s : Frame} : ∀ {n : Node} {r : Nat}, 0 ∉ data →
    step4 data s = some (n, r) → Tight n := by
  induction data using step4.induct with
  | case1 data h =>
    intro n r hnul h4
    rw [step4] at h4
    split at h4
    · refine step5_tight ⟨⟨hnul, (absurd rfl ·), ?_⟩, by simp⟩ h4
      simp [LabelsOk, BranchOk]
    · next h' => rw [h] at h'; cases h'
  | case2 data c rest h ih =>
    intro n r hnul h4
    rw [← List.take_append_drop prefixMax data, h, List.mem_append, List.mem_cons, not_or,
      not_or] at hnul
    rw [step4] at h4
    split at h4
    · next h' => rw [h] at h'; cases h'
    · next c' rest' h' =>
      rw [h, List.cons.injEq] at h'
      obtain ⟨rfl, rfl⟩ := h'
      obtain ⟨⟨ch, r'⟩, hch, h4⟩ := Option.bind_eq_some_iff.mp h4
      cases h4
      exact tight_single hnul.1 (Ne.symm hnul.2.1) (ih hnul.2.2 hch)

/-- A child in place of another, or in a slot that was made for it. -/
theorem Tight.setChild {n ch : Node} {i : Nat} (hn : 0 ∉ n.pre)
    (hsocks : n.refcount ≠ 0 → ∃ l, n.sockids = .list l)
    (hlabels : LabelsOk n.u (n.child.set i (some ch))) (hch : Tight ch)
    (hold : ∀ p, some p ∈ n.child → Tight p) : Tight (n.setChild i (some ch)) := by
  refine ⟨⟨hn, hsocks, hlabels⟩, fun p hp => ?_⟩
  rcases List.mem_or_eq_of_mem_set hp with h | h
  · exact hold p h
  · cases h; exact hch

theorem LabelsOk.set_some {u : Branch} {child : List (Option Node)} {i : Nat} {ch x : Node}
    (h : LabelsOk u child) (hi : child[i]? = some (some ch)) :
    LabelsOk u (child.set i (some x)) := by
  cases u with
  | sparse cs => exact (show BranchOk (.sparse cs) child from h).set_some hi
  | dense mn mx nbr =>
    obtain ⟨hlt, hget⟩ := List.getElem?_eq_some_iff.mp hi
    obtain ⟨hmn, hle, hlen, hnbr⟩ := h
    refine ⟨hmn, hle, by rw [List.length_set, hlen], ?_⟩
    rw [List.countP_set hlt, hget]
    simp only [Option.isSome_some, if_true]
    omega

/-- **One label more** keeps a node tight. -/
theorem growChild_tight {n ch : Node} {c : UInt8} (hn : Tight n) (hc : n.next c = none)
    (h0 : c ≠ 0) (hch : Tight ch) :
    Tight ((growChild n c).1.setChild (growChild n c).2 (some ch)) := by
  have hlabels := hn.node.labels
  cases hu : n.u with
  | sparse cs =>
    rw [hu] at hlabels
    have hg := growChild_grown (n := n) (hu ▸ hlabels) hc h0
    refine .setChild (by rw [hg.pre]; exact hn.node.pre_nul) ?_ (hg.filled ch).labels hch
      fun p hp => hn.child (hg.old p hp)
    simp only [growChild, hu]
    split
    · exact hn.node.socks
    · exact (absurd rfl ·)
  | dense mn mx nbr =>
    obtain ⟨mn', mx', hu', hmn', hle', hlen', hcount'⟩ := growChild_dense_slots hu hlabels hc h0 ch
    have hhead : (growChild n c).1.pre = n.pre ∧ (growChild n c).1.refcount = n.refcount ∧
        (growChild n c).1.sockids = n.sockids ∧
        ∀ p, some p ∈ (growChild n c).1.child → some p ∈ n.child := by
      simp only [growChild, hu]
      split
      · exact ⟨rfl, rfl, rfl, fun p hp => by simpa using hp⟩
      · split
        · exact ⟨rfl, rfl, rfl, fun p hp => by simpa using hp⟩
        · exact ⟨rfl, rfl, rfl, fun p hp => hp⟩
    obtain ⟨hpre, hcnt, hsock, hold⟩ := hhead
    refine .setChild (by rw [hpre]; exact hn.node.pre_nul) ?_ ?_ hch
      fun p hp => hn.child (hold p hp)
    · rw [hcnt, hsock]; exact hn.node.socks
    · rw [hu] at hlabels
      have hnbr : (nbr + 1).toNat ≤ nbr.toNat + 1 := by
        rw [UInt16.toNat_add]
        exact Nat.mod_le _ _
      rw [hu']
      exact ⟨hmn', hle', hlen', by rw [hcount']; have := hlabels.2.2.2; omega⟩

theorem step3_tight {n m : Node} {data : List UInt8} {s : Frame} {r : Nat} (hn : Tight n)
    (hnul : 0 ∉ data) (hc : ∀ c rest, data = c :: rest → n.next c = none)
    (h : step3 n data s = some (m, r)) : Tight m := by
  cases data with
  | nil => exact step5_tight hn h
  | cons c rest =>
    rw [List.mem_cons, not_or] at hnul
    obtain ⟨⟨ch, r'⟩, hch, h⟩ := Option.bind_eq_some_iff.mp h
    cases h
    exact growChild_tight hn (hc c rest rfl) (Ne.symm hnul.1) (step4_tight hnul.2 hch)

theorem split_tight {n m : Node} {q r : List UInt8} {x : UInt8} (hn : Tight n)
    (hpre : n.pre = q ++ x :: r) (h : split n q.length = some m) :
    Tight m ∧ ∀ c, c ≠ x → m.next c = none := by
  have hr : n.pre.drop (q.length + 1) = r := by
    rw [hpre, ← List.drop_drop, List.drop_left, List.drop_one, List.tail_cons]
  have hx : n.pre.getD q.length 0 = x := by rw [hpre]; simp
  have hq : n.pre.take q.length = q := by rw [hpre, List.take_left]
  have hnul := hn.node.pre_nul
  rw [hpre, List.mem_append, List.mem_cons, not_or, not_or] at hnul
  obtain ⟨ch, hch, h⟩ := Option.bind_eq_some_iff.mp h
  rw [hx, hq] at h
  cases h
  have hshort : Tight { n with pre := n.pre.drop (q.length + 1) } :=
    ⟨⟨by rw [hr]; exact hnul.2.2, hn.node.socks, hn.node.labels⟩, fun ch hch => hn.child hch⟩
  refine ⟨tight_single hnul.1 (Ne.symm hnul.2.1) (nnNodeCompact_tight hshort hch), fun c hc => ?_⟩
  rw [next_single rfl rfl, if_neg hc]

/-- **`nn_trie_subscribe` keeps a trie tight.** -/
theorem subscribeFrom_tight {n : Node} (hn : Tight n) : ∀ {m : Node} {data : List UInt8} {s : Frame}
    {r : Nat}, 0 ∉ data → subscribeFrom n data s = some (m, r) → Tight m := by
  induction hn with
  | @mk n hnode hkids ih =>
  intro m data s r hnul h
  have hn : Tight n := .mk hnode hkids
  rcases key_cases n data with hpre | rfl | ⟨c, rest, rfl⟩
  · -- the prefix matches in part only: split it
    have hlt : nnNodeCheckPrefix n.pre data < n.pre.length :=
      lt_of_le_of_ne (nnNodeCheckPrefix_le _ _) fun h => hpre (nnNodeCheckPrefix_eq_iff.mp h)
    obtain ⟨q, x, r', e, hq, rfl, hpos, he⟩ := exists_split_of_lt hlt
    rw [hpos] at hlt
    rw [subscribeFrom_split hlt hpos] at h
    obtain ⟨m', hm', h⟩ := Option.bind_eq_some_iff.mp h
    obtain ⟨htight, hnext⟩ := split_tight hn hq hm'
    refine step3_tight htight (fun h => hnul (List.mem_append_right _ h)) ?_ h
    rintro c rest rfl
    exact hnext c fun hcx => he (by rw [hcx]; rfl)
  · -- the key ends at this node
    rw [subscribeFrom_pre] at h
    exact step5_tight hn h
  · -- the key goes on below this node
    have hnul' : 0 ∉ c :: rest := fun h => hnul (List.mem_append_right _ h)
    have hnew : n.next c = none → step3 n (c :: rest) s = some (m, r) → Tight m := fun hc h =>
      step3_tight hn hnul' (fun c' rest' heq => by cases heq; exact hc) h
    rw [subscribeFrom_cons] at h
    split at h
    · next hi => exact hnew (by rw [Node.next, hi]; rfl) h
    · next i hi =>
      split at h
      · next hat => exact hnew (by rw [Node.next, hi]; exact hat) h
      · next ch hat =>
        obtain ⟨⟨ch', r'⟩, hsub, h⟩ := Option.map_eq_some_iff.mp h
        cases h
        have hch' := ih ch (mem_child_of_at hat) (fun h => hnul' (List.mem_cons_of_mem _ h)) hsub
        exact .setChild hnode.pre_nul hnode.socks
          (hnode.labels.set_some (Option.join_eq_some_iff.mp hat)) hch' fun p hp => hkids p hp

theorem nnTrieSubscribe_tight {root root' : Option Node} {t : List UInt8} {s : Frame} {r : Nat}
    (hroot : TightRoot root) (ht : 0 ∉ t) (h : nnTrieSubscribe root t s = some (root', r)) :
    TightRoot root' := by
  cases root with
  | none =>
    obtain ⟨⟨n, r'⟩, hn, h⟩ := Option.bind_eq_some_iff.mp h
    cases h
    exact tightRoot_some (step4_tight ht hn)
  | some m =>
    obtain ⟨⟨n, r'⟩, hn, h⟩ := Option.bind_eq_some_iff.mp h
    cases h
    exact tightRoot_some (subscribeFrom_tight (hroot m rfl) ht hn)

/-! ## The parts of `nn_trie_unsubscribe` -/

theorem found_tight {self o : Option Node} {s : Frame} {r : Int} (hself : TightRoot self)
    (h : found self s = some (o, r)) : TightRoot o ∧ (o = none → r ≠ 0) := by
  cases self with
  | none => cases h; exact ⟨tightRoot_none, fun _ => by decide⟩
  | some n =>
    have hn := hself n rfl
    unfold found at h
    simp only at h
    split at h
    · cases h; exact ⟨hself, (absurd · (by simp))⟩
    · split at h
      · next l hl =>
        have hn' : Tight { n with refcount := n.refcount - 1, sockids := .list (l.erase s) } :=
          hn.header rfl rfl rfl fun _ => ⟨_, rfl⟩
        split at h
        · split at h
          · cases h; exact ⟨tightRoot_none, fun _ => by decide⟩
          · obtain ⟨m, hm, h⟩ := Option.bind_eq_some_iff.mp h
            cases h
            exact ⟨tightRoot_some (nnNodeCompact_tight hn' hm), (absurd · (by simp))⟩
        · cases h; exact ⟨tightRoot_some hn', (absurd · (by simp))⟩
      · cases h

/-- Whatever was in the slot, at most one child goes. -/
theorem countP_set_none_le (slots : List (Option Node)) (i : Nat) :
    slots.countP (·.isSome) ≤ (slots.set i none).countP (·.isSome) + 1 := by
  by_cases hi : i < slots.length
  · rw [List.countP_set hi]
    simp only [Option.isSome_none, Bool.false_eq_true, if_false]
    split <;> omega
  · rw [List.set_eq_of_length_le (Nat.le_of_not_lt hi)]
    exact Nat.le_succ _

/-- **A dense array with one child less**, trimmed or not. -/
theorem prune_dense_labels {n : Node} {mn mx : UInt8} {nbr : UInt16} {i : Nat}
    (hlabels : LabelsOk (.dense mn mx nbr) n.child) (hnbr : sparseMax + 1 < nbr.toNat) :
    LabelsOk (.dense (UInt8.ofNat (firstChild (n.child.set i none) + mn.toNat)) mx (nbr - 1))
        ((n.child.set i none).drop (firstChild (n.child.set i none))) ∧
      LabelsOk (.dense mn (UInt8.ofNat (lastChild (n.child.set i none) + mn.toNat)) (nbr - 1))
        ((n.child.set i none).take (lastChild (n.child.set i none) + 1)) ∧
      LabelsOk (.dense mn mx (nbr - 1)) (n.child.set i none) := by
  obtain ⟨hmn, hle, hlen, hcount⟩ := hlabels
  have hcount' := countP_set_none_le n.child i
  generalize hslots : n.child.set i none = slots at *
  have hlen' : slots.length = mx.toNat - mn.toNat + 1 := by rw [← hslots, List.length_set, hlen]
  have hmn0 : mn.toNat ≠ 0 := fun h => hmn (UInt8.toNat_inj.mp h)
  have hmx := mx.toNat_lt
  have hnbr1 : (nbr - 1).toNat + 1 = nbr.toNat := by
    have h1 : (1 : UInt16) ≤ nbr := by rw [UInt16.le_iff_toNat_le]; simp; omega
    rw [UInt16.toNat_sub_of_le _ _ h1]
    simp; omega
  rw [UInt8.le_iff_toNat_le] at hle
  have hpos : 0 < slots.countP (·.isSome) := by omega
  obtain ⟨ch, hch, -⟩ := firstChild_spec hpos
  obtain ⟨hfirst, -⟩ := List.getElem?_eq_some_iff.mp hch
  obtain ⟨hlast, -, -⟩ := lastChild_spec hpos
  have hlabel : ∀ k < slots.length, (UInt8.ofNat (k + mn.toNat)).toNat = k + mn.toNat :=
    fun k hk => by
      rw [UInt8.toNat_ofNat']
      exact Nat.mod_eq_of_lt (by omega)
  have hk := hlabel _ hfirst
  refine ⟨⟨fun h0 => ?_, ?_, ?_, ?_⟩, ⟨hmn, ?_, ?_, ?_⟩, hmn, UInt8.le_iff_toNat_le.mpr hle, hlen',
    by omega⟩
  · rw [h0] at hk
    simp at hk
    omega
  · rw [UInt8.le_iff_toNat_le, hk]; omega
  · rw [List.length_drop, hk]; omega
  · rw [countP_drop_firstChild hpos]; omega
  · rw [UInt8.le_iff_toNat_le, hlabel _ hlast]; omega
  · rw [List.length_take, hlabel _ hlast]; omega
  · rw [countP_take_lastChild hpos]; omega

/-- **A label taken out** keeps a node tight. -/
theorem prune_tight {n : Node} {c : UInt8} {i : Nat} {o : Option Node} (hn : Tight n)
    (hc : nnNodeNext n c = some i) (h : prune (n.setChild i none) i c = some o) : TightRoot o := by
  have hlabels := hn.node.labels
  have hold : ∀ p, some p ∈ n.child.set i none → Tight p := fun p hp =>
    hn.child ((List.mem_or_eq_of_mem_set hp).resolve_right (by simp))
  cases hu : n.u with
  | sparse cs =>
    have hu' : (n.setChild i none).u = .sparse cs := hu
    have hchild' : (n.setChild i none).child.eraseIdx i = n.child.eraseIdx i :=
      List.eraseIdx_set_eq
    have hi : i < cs.length := by
      rw [nnNodeNext, hu] at hc
      exact (List.idxOf?_eq_some_iff.mp hc).1
    rw [hu] at hlabels
    have hshort : Tight { n with u := .sparse (cs.eraseIdx i), child := n.child.eraseIdx i } :=
      ⟨⟨hn.node.pre_nul, hn.node.socks, BranchOk.eraseIdx hlabels hi⟩,
        fun p hp => hn.child ((List.eraseIdx_sublist n.child i).subset hp)⟩
    simp only [prune, hu', hchild'] at h
    split at h
    · split at h
      · cases h
      · cases h; exact tightRoot_none
    · obtain ⟨m, hm, rfl⟩ := Option.map_eq_some_iff.mp h
      exact tightRoot_some (nnNodeCompact_tight hshort hm)
  | dense mn mx nbr =>
    have hu' : (n.setChild i none).u = .dense mn mx nbr := hu
    have hchild' : (n.setChild i none).child = n.child.set i none := rfl
    rw [hu] at hlabels
    simp only [prune, hu', hchild'] at h
    split at h
    · next hnbr =>
      obtain ⟨hleft, hright, hmid⟩ := prune_dense_labels (n := n) (i := i) hlabels hnbr
      split at h
      · cases h
        exact tightRoot_some ⟨⟨hn.node.pre_nul, hn.node.socks, hleft⟩,
          fun p hp => hold p (List.mem_of_mem_drop hp)⟩
      · split at h
        · cases h
          exact tightRoot_some ⟨⟨hn.node.pre_nul, hn.node.socks, hright⟩,
            fun p hp => hold p (List.mem_of_mem_take hp)⟩
        · cases h
          exact tightRoot_some ⟨⟨hn.node.pre_nul, hn.node.socks, hmid⟩, hold⟩
    · split at h
      · next hlive =>
        cases h
        have hlen : 0 + mn.toNat + (n.child.set i none).length ≤ 256 := by
          have := mx.toNat_lt
          have hle := UInt8.le_iff_toNat_le.mp hlabels.2.1
          rw [List.length_set, hlabels.2.2.1]
          omega
        refine tightRoot_some ⟨⟨hn.node.pre_nul, (absurd rfl ·),
          (branchOk_liveSlots hlabels.1 hlen hlive).labels⟩, fun p hp => ?_⟩
        obtain ⟨q, hq, heq⟩ := List.mem_map.mp hp
        exact hold p (heq ▸ (of_mem_liveSlots hlen q hq).2.2)
      · cases h

/-- **`nn_node_unsubscribe` keeps a trie tight**, also when the pair is not there. -/
theorem nnNodeUnsubscribe_tight {self o : Option Node} {data : List UInt8} {s : Frame} {r : Int}
    (hself : TightRoot self) (h : nnNodeUnsubscribe self data s = some (o, r)) :
    TightRoot o ∧ (o = none → r ≠ 0) := by
  induction hlen : data.length using Nat.strong_induction_on generalizing self o data r with
  | h len ih =>
  by_cases hd : data = []
  · rw [nnNodeUnsubscribe.eq_def, if_pos hd] at h
    exact found_tight hself h
  cases self with
  | none => rw [nnNodeUnsubscribe, if_neg hd] at h; cases h
  | some n =>
    have hn := hself n rfl
    rcases key_cases n data with hpre | rfl | ⟨c, rest, rfl⟩
    · rw [nnNodeUnsubscribe_off s hpre hd] at h
      cases h
      exact ⟨hself, (absurd · (by simp))⟩
    · rw [nnNodeUnsubscribe_pre] at h
      exact found_tight hself h
    · cases hc : nnNodeNext n c with
      | none =>
        rw [nnNodeUnsubscribe_cons_none rest s hc] at h
        cases h
        exact ⟨hself, (absurd · (by simp))⟩
      | some i =>
        rw [nnNodeUnsubscribe_cons rest s hc] at h
        obtain ⟨⟨ch', r'⟩, hu, h⟩ := Option.bind_eq_some_iff.mp h
        obtain ⟨htight, hnone⟩ := ih rest.length
          (by rw [← hlen, List.length_append, List.length_cons]; omega)
          (fun ch hat => hn.child (mem_child_of_at hat)) hu rfl
        cases ch' with
        | none =>
          -- the child is gone, or was never there
          have hr : r' ≠ 0 := hnone rfl
          simp only [if_neg hr] at h
          obtain ⟨o', ho, h⟩ := Option.map_eq_some_iff.mp h
          cases h
          exact ⟨prune_tight hn hc ho, fun _ => by decide⟩
        | some ch' =>
          -- the child stays
          obtain ⟨ch, hat⟩ : ∃ ch, n.at i = some ch := by
            cases hat : n.at i with
            | none => rw [hat] at hu; cases (nnNodeUnsubscribe_null hu).1
            | some ch => exact ⟨ch, rfl⟩
          have hset : Tight (n.setChild i (some ch')) := .setChild hn.node.pre_nul hn.node.socks
            (hn.node.labels.set_some (Option.join_eq_some_iff.mp hat)) (htight ch' rfl)
            fun p hp => hn.child hp
          simp only [Option.isSome_some, if_true] at h
          split at h <;> cases h <;> exact ⟨tightRoot_some hset, (absurd · (by simp))⟩

/-! ## Runs -/

theorem Op.exec_tight {root root' : Option Node} {op : Op} (hroot : TightRoot root)
    (hop : ∀ t s, op = .subscribe t s → 0 ∉ t) (h : op.exec root = some root') :
      TightRoot root' := by
  cases op with
  | subscribe t s =>
    obtain ⟨⟨root₁, r⟩, hs, rfl⟩ := Option.map_eq_some_iff.mp h
    exact nnTrieSubscribe_tight hroot (hop t s rfl) hs
  | unsubscribe t s =>
    obtain ⟨⟨root₁, r⟩, hs, rfl⟩ := Option.map_eq_some_iff.mp h
    exact (nnNodeUnsubscribe_tight hroot hs).1

/-- **Every trie built by calls that returned is tight**, as long as no topic holds a `NUL`. -/
theorem exec_tight {ops : List Op} : ∀ {root root' : Option Node}, TightRoot root →
    (∀ t s, Op.subscribe t s ∈ ops → 0 ∉ t) → exec root ops = some root' → TightRoot root' := by
  induction ops with
  | nil => rintro root root' hroot - ⟨⟩; exact hroot
  | cons op ops ih =>
    intro root root' hroot hnul h
    obtain ⟨root₁, h₁, h⟩ := Option.bind_eq_some_iff.mp h
    refine ih (Op.exec_tight hroot ?_ h₁) (fun t s hm => hnul t s (List.mem_cons_of_mem _ hm)) h
    rintro t s rfl
    exact hnul t s List.mem_cons_self

end DoubleDecker.Trie
