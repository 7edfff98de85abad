import DoubleDecker.Trie.Tight

/-!
# Trie/Sound — the invariant of the nodes

`NodeSound` is what every node should satisfy, lists set included.  The sparse node
`nn_node_unsubscribe` makes of a dense one never gets its list set, and a pair that was lost is
taken off the count of whoever is there; a run whose calls stay away from these two (`Op.sound`)
leaves every node sound, whatever `nn_trie_subscribe` splits, grows or converts.
-/

namespace DoubleDecker.Trie

/-- The invariant of one node: the shape, and a list that is `NULL` or initialised. -/
structure NodeSound (n : Node) : Prop extends NodeOk n where
  init : n.sockids ≠ .uninit

/-- **A sound trie**: every node in it is. -/
inductive Sound : Node → Prop
  | mk {n : Node} : NodeSound n → (∀ ch, some ch ∈ n.child → Sound ch) → Sound n

theorem Sound.node {n : Node} (h : Sound n) : NodeSound n := by cases h; assumption

theorem Sound.child {n ch : Node} (h : Sound n) (hc : some ch ∈ n.child) : Sound ch := by
  cases h with | mk _ hch => exact hch ch hc

theorem Sound.wf {n : Node} (h : Sound n) : WF n := by
  induction h with
  | mk hnode _ ih => exact ⟨hnode.toNodeOk, ih⟩

/-- A node in shape with its list set, above sound children. -/
theorem WF.sound {n : Node} (h : WF n) (hinit : n.sockids ≠ .uninit)
    (hch : ∀ ch, some ch ∈ n.child → Sound ch) : Sound n :=
  ⟨⟨h.ok, hinit⟩, hch⟩

/-- A trie that may be empty, sound. -/
def SoundRoot (root : Option Node) : Prop := ∀ n, root = some n → Sound n

theorem soundRoot_none : SoundRoot none := fun _ h => by cases h

theorem soundRoot_some {n : Node} (h : Sound n) : SoundRoot (some n) := fun _ h' => by
  cases h'; exact h

/-! ## The parts of `nn_trie_subscribe` -/

/-- Compaction above sound children, of a node with its list set. -/
theorem nnNodeCompact_sound {n m : Node} (h : nnNodeCompact n = some m) (hwf : WF m)
    (hinit : n.sockids ≠ .uninit) (hkids : ∀ ch, some ch ∈ n.child → Sound ch) : Sound m := by
  have hn : n = m → Sound m := by
    rintro rfl
    exact hwf.sound hinit hkids
  unfold nnNodeCompact at h
  split at h
  · exact hn (Option.some.inj h)
  · split at h
    · split at h
      · cases h
      · next ch hat =>
        split at h
        · exact hn (Option.some.inj h)
        · cases h
          have hch : Sound ch := hkids ch (mem_child_of_at hat)
          exact hwf.sound hch.node.init fun p hp => hch.child hp
    · exact hn (Option.some.inj h)

theorem split_sound {n m : Node} {q r : List UInt8} {x : UInt8} (hn : Sound n)
    (hpre : n.pre = q ++ x :: r) (h : split n q.length = some m) : Sound m := by
  obtain ⟨m', hm', hwf, -, hnull, -⟩ := split_spec hn.wf hpre
  obtain rfl := Option.some.inj (hm'.symm.trans h)
  refine hwf.sound (by rw [hnull]; simp) ?_
  obtain ⟨ch, hch, h⟩ := Option.bind_eq_some_iff.mp h
  cases h
  intro p hp
  rw [List.mem_singleton, Option.some.injEq] at hp
  subst hp
  exact nnNodeCompact_sound hch (hwf.child (List.mem_singleton_self _)) hn.node.init
    fun ch hc => hn.child hc

theorem step5_init {n m : Node} {s : Frame} {r : Nat} (h : step5 n s = some (m, r)) :
    m.sockids ≠ .uninit := by
  unfold step5 at h
  split at h
  · cases h
  · cases h; simp
  · next l hl =>
    split at h
    · cases h; rw [hl]; simp
    · cases h; simp

/-- **Step 5** while the count does not wrap. -/
theorem step5_sound {n : Node} {s : Frame} (hn : Sound n)
    (hroom : s ∈ n.live ∨ n.live.length + 1 < 2 ^ 32) :
    ∃ m r, step5 n s = some (m, r) ∧ Sound m := by
  obtain ⟨m, r, h5, hpre, hu, hchild, hsocks, hcount, -, -⟩ := step5_spec (s := s) hn.node.socks
    hn.node.init fun l hl => by rwa [hn.node.socks.live_eq hl] at hroom
  refine ⟨m, r, h5, (hn.wf.relabel hpre hu hchild hsocks hcount).sound (step5_init h5) ?_⟩
  rw [hchild]
  exact fun ch hch => hn.child hch

theorem step4_sound {data : List UInt8} {s : Frame} : ∀ {n : Node} {r : Nat}, 0 ∉ data →
    step4 data s = some (n, r) → Sound n := by
  induction data using step4.induct with
  | case1 data h =>
    intro n r hnul h4
    obtain ⟨m, hm, hwf, -⟩ := step4_spec data s hnul
    obtain ⟨rfl, -⟩ := Prod.mk.inj (Option.some.inj (hm.symm.trans h4))
    rw [step4] at h4
    split at h4
    · exact hwf.sound (step5_init h4) (by cases h4; simp)
    · next h' => rw [h] at h'; cases h'
  | case2 data c rest h ih =>
    intro n r hnul h4
    obtain ⟨m, hm, hwf, -⟩ := step4_spec data s hnul
    obtain ⟨rfl, -⟩ := Prod.mk.inj (Option.some.inj (hm.symm.trans h4))
    rw [← List.take_append_drop prefixMax data, h, List.mem_append, List.mem_cons, not_or,
      not_or] at hnul
    rw [step4] at h4
    split at h4
    · next h' => rw [h] at h'; cases h'
    · next c' rest' h' =>
      rw [h, List.cons.injEq] at h'
      obtain ⟨rfl, rfl⟩ := h'
      obtain ⟨⟨ch, r'⟩, hch, h4⟩ := Option.bind_eq_some_iff.mp h4
      cases h4
      refine hwf.sound (by simp) fun p hp => ?_
      rw [List.mem_singleton, Option.some.injEq] at hp
      exact hp ▸ ih hnul.2.2 hch

/-- The node made for one label more has its list set: the old one, or `NULL`. -/
theorem growChild_init {n : Node} (c : UInt8) (h : n.sockids ≠ .uninit) :
    (growChild n c).1.sockids ≠ .uninit := by
  unfold growChild
  split
  · split
    · exact h
    · simp
  · split
    · exact h
    · split
      · exact h
      · exact h

/-- **A grown node with its new slot filled**, also one whose list the conversion dropped. -/
theorem Grown.sound {n m ch : Node} {c : UInt8} {i : Nat} (hg : Grown n c m i) (hn : Sound n)
    (hsock : SocksOk m) (hinit : m.sockids ≠ .uninit) (hch : Sound ch) :
    Sound (m.setChild i (some ch)) := by
  refine (hg.wf hn.wf hsock hch.wf).sound hinit fun p hp => ?_
  rcases List.mem_or_eq_of_mem_set hp with h | h
  · exact hn.child (hg.old p h)
  · cases h; exact hch

/-- **Step 3**, with data left or without. -/
theorem step3_sound {n : Node} {data : List UInt8} {s : Frame} (hn : Sound n) (hnul : 0 ∉ data)
    (hroom : data = [] → s ∈ n.live ∨ n.live.length + 1 < 2 ^ 32)
    (hc : ∀ c rest, data = c :: rest → n.next c = none) :
    ∃ m r, step3 n data s = some (m, r) ∧ Sound m := by
  cases data with
  | nil => exact step5_sound hn (hroom rfl)
  | cons c rest =>
    rw [List.mem_cons, not_or] at hnul
    obtain ⟨ch, hch, -, -⟩ := step4_spec rest s hnul.2
    have hg := growChild_grown hn.node.branch (hc c rest rfl) (Ne.symm hnul.1)
    exact ⟨_, 2, by rw [step3, hch]; rfl,
      hg.sound hn (growChild_socks c hn.node.toNodeOk) (growChild_init c hn.node.init)
        (step4_sound hnul.2 hch)⟩

/-- A child in place of another. -/
theorem Sound.replace {n ch ch' : Node} {c : UInt8} {i : Nat} (hn : Sound n)
    (hi : nnNodeNext n c = some i) (hat : n.at i = some ch) (hch' : Sound ch') :
    Sound (n.setChild i (some ch')) := by
  refine (hn.wf.replace hi hat hch'.wf).1.sound hn.node.init fun p hp => ?_
  rcases List.mem_or_eq_of_mem_set hp with h | h
  · exact hn.child h
  · cases h; exact hch'

/-- **`nn_trie_subscribe` keeps a trie sound** while no count wraps. -/
theorem subscribeFrom_sound {n : Node} (hn : Sound n) : ∀ {data : List UInt8} {s : Frame},
    0 ∉ data → (s ∈ subs n data ∨ (subs n data).length + 1 < 2 ^ 32) →
    ∃ m r, subscribeFrom n data s = some (m, r) ∧ Sound m := by
  induction hn with
  | @mk n hnode hkids ih =>
  intro data s hnul hroom
  have hn : Sound n := .mk hnode hkids
  rcases key_cases n data with hpre | rfl | ⟨c, rest, rfl⟩
  · -- the prefix matches in part only: split it
    have hlt : nnNodeCheckPrefix n.pre data < n.pre.length :=
      lt_of_le_of_ne (nnNodeCheckPrefix_le _ _) fun h => hpre (nnNodeCheckPrefix_eq_iff.mp h)
    obtain ⟨q, x, r, e, hq, rfl, hpos, he⟩ := exists_split_of_lt hlt
    rw [hpos] at hlt
    obtain ⟨m, hm, -, -, -, hlive, -, hnext, -⟩ := split_spec hn.wf hq
    rw [subscribeFrom_split hlt hpos, hm, Option.bind_some]
    refine step3_sound (split_sound hn hq hm) (fun h => hnul (List.mem_append_right _ h)) ?_ ?_
    · exact fun _ => Or.inr (by rw [hlive]; decide)
    · rintro c rest rfl
      exact hnext c fun hcx => he (by rw [hcx]; rfl)
  · -- the key ends at this node
    rw [subs_pre] at hroom
    rw [subscribeFrom_pre]
    exact step5_sound hn hroom
  · -- the key goes on below this node
    have hnul' : 0 ∉ c :: rest := fun h => hnul (List.mem_append_right _ h)
    have hnew : n.next c = none → ∃ m r, step3 n (c :: rest) s = some (m, r) ∧ Sound m := fun hc =>
      step3_sound hn hnul' (fun h => by cases h) fun c' rest' heq => by cases heq; exact hc
    rw [subscribeFrom_cons]
    split
    · next hi => exact hnew (by rw [Node.next, hi]; rfl)
    · next i hi =>
      split
      · next hat => exact hnew (by rw [Node.next, hi]; exact hat)
      · next ch hat =>
        have hc : n.next c = some ch := by rw [Node.next, hi]; exact hat
        rw [subs_pre_cons, hc] at hroom
        obtain ⟨ch', r, hsub, hch'⟩ := ih ch (mem_child_of_at hat)
          (fun h => hnul' (List.mem_cons_of_mem _ h)) hroom
        exact ⟨_, r, by rw [hsub]; rfl, hn.replace hi hat hch'⟩

theorem nnTrieSubscribe_sound {root : Option Node} {t : List UInt8} {s : Frame}
    (hroot : SoundRoot root) (ht : 0 ∉ t)
    (hroom : s ∈ held root t ∨ (held root t).length + 1 < 2 ^ 32) :
    ∃ n r, nnTrieSubscribe root t s = some (some n, r) ∧ Sound n := by
  cases root with
  | none =>
    obtain ⟨n, h4, -, -⟩ := step4_spec t s ht
    exact ⟨n, 2, by rw [nnTrieSubscribe]; simp [h4], step4_sound ht h4⟩
  | some m =>
    obtain ⟨n, r, hn, hsound⟩ := subscribeFrom_sound (hroot m rfl) ht hroom
    exact ⟨n, r, by rw [nnTrieSubscribe]; simp [hn], hsound⟩

/-! ## The condition of `nn_trie_unsubscribe` -/

/-- The node has one child, and a prefix that fits into one node with the child's. -/
def merges (n : Node) : Bool :=
  match n.u with
  | .sparse [_] => (n.at 0).any fun ch => n.pre.length + ch.pre.length + 1 ≤ prefixMax
  | _ => false

/-- At the node the walk ends at: nobody is counted, or the socket id is in the list, or it is not
and the list goes away with its node. -/
def countSound (n : Node) (sockid : Frame) : Bool :=
  n.refcount = 0 ∨ sockid ∈ n.live ∨ n.refcount = 1 ∧ (n.type = 0 ∨ merges n)

/-- The node goes when the count is taken down where the walk ends. -/
def goes (self : Option Node) (data : List UInt8) : Bool :=
  match self with
  | none => false
  | some n =>
    if data = [] then n.refcount = 1 ∧ n.type = 0
    else if n.pre <+: data then
      match _h : data.drop n.pre.length with
      | [] => n.refcount = 1 ∧ n.type = 0
      | c :: rest =>
        match nnNodeNext n c with
        | none => false
        | some i => goes (n.at i) rest && decide (n.type = 1 ∧ n.refcount = 0)
    else false
termination_by data.length
decreasing_by
  have := congrArg List.length _h
  simp only [List.length_drop, List.length_cons] at this
  omega

/-- A child can be taken out without a conversion to a sparse array. -/
def staysDense (n : Node) : Bool :=
  match n.u with
  | .sparse _ => true
  | .dense _ _ nbr => sparseMax + 1 < nbr.toNat

/-- **The call leaves no list unset and no count wrong**: the count fits where the walk ends, and no
dense node above loses the ninth child. -/
def unsubscribeSound (self : Option Node) (data : List UInt8) (sockid : Frame) : Bool :=
  match self with
  | none => false
  | some n =>
    if data = [] then countSound n sockid
    else if n.pre <+: data then
      match _h : data.drop n.pre.length with
      | [] => countSound n sockid
      | c :: rest =>
        match nnNodeNext n c with
        | none => true
        | some i =>
          unsubscribeSound (n.at i) rest sockid && (!goes (n.at i) rest || staysDense n)
    else true
termination_by data.length
decreasing_by
  have := congrArg List.length _h
  simp only [List.length_drop, List.length_cons] at this
  omega

theorem goes_nil (n : Node) : goes (some n) [] = decide (n.refcount = 1 ∧ n.type = 0) := by
  rw [goes, if_pos rfl]

theorem goes_off {n : Node} {data : List UInt8} (h : ¬ n.pre <+: data) (hd : data ≠ []) :
    goes (some n) data = false := by
  rw [goes, if_neg hd, if_neg h]

theorem goes_pre (n : Node) : goes (some n) n.pre = decide (n.refcount = 1 ∧ n.type = 0) := by
  rw [goes, if_pos (List.prefix_refl _)]
  split
  · rfl
  · split
    · rfl
    · next h => simp at h

theorem goes_cons {n : Node} {c : UInt8} (rest : List UInt8) :
    goes (some n) (n.pre ++ c :: rest) = (nnNodeNext n c).any fun i =>
      goes (n.at i) rest && decide (n.type = 1 ∧ n.refcount = 0) := by
  rw [goes, if_neg (by simp), if_pos (List.prefix_append _ _)]
  split
  · next h => simp at h
  · next h =>
    simp only [List.drop_left, List.cons.injEq] at h
    obtain ⟨rfl, rfl⟩ := h
    cases nnNodeNext n c <;> rfl

theorem unsubscribeSound_nil (n : Node) (s : Frame) :
    unsubscribeSound (some n) [] s = countSound n s := by
  rw [unsubscribeSound, if_pos rfl]

theorem unsubscribeSound_pre (n : Node) (s : Frame) :
    unsubscribeSound (some n) n.pre s = countSound n s := by
  rw [unsubscribeSound, if_pos (List.prefix_refl _)]
  split
  · rfl
  · split
    · rfl
    · next h => simp at h

theorem unsubscribeSound_cons {n : Node} {c : UInt8} (rest : List UInt8) (s : Frame) :
    unsubscribeSound (some n) (n.pre ++ c :: rest) s = (nnNodeNext n c).all fun i =>
      unsubscribeSound (n.at i) rest s && (!goes (n.at i) rest || staysDense n) := by
  rw [unsubscribeSound, if_neg (by simp), if_pos (List.prefix_append _ _)]
  split
  · next h => simp at h
  · next h =>
    simp only [List.drop_left, List.cons.injEq] at h
    obtain ⟨rfl, rfl⟩ := h
    cases nnNodeNext n c <;> rfl

/-! ## The parts of `nn_trie_unsubscribe` -/

/-- A node that merges with its child leaves nothing of its header but the prefix. -/
theorem nnNodeCompact_merges {n m : Node} (hm : merges n) (hn0 : n.refcount = 0)
    (hm0 : m.refcount = 0) (hpre : m.pre = n.pre) (hu : m.u = n.u) (hchild : m.child = n.child) :
    nnNodeCompact m = nnNodeCompact n := by
  have hat : m.at 0 = n.at 0 := by rw [Node.at, hchild, Node.at]
  unfold merges at hm
  split at hm
  · next c hc =>
    obtain ⟨ch, hch, hle⟩ := (Option.any_eq_true _ _).mp hm
    have hle' : ¬ n.pre.length + ch.pre.length + 1 > prefixMax := Nat.not_lt.mpr
      (by simpa using hle)
    simp only [nnNodeCompact, nnNodeHasSubscribers, hn0, hm0, hu, hc, hat, hch, hpre, if_neg hle']
    rfl
  · cases hm

/-- A lost subscriber taken off a list that goes is as good as the one the list has. -/
theorem found_eq_of_goes {n : Node} (h1 : n.refcount = 1) (ht : n.type = 0 ∨ merges n)
    {l : List Frame} (hl : n.sockids = .list l) (s s' : Frame) :
    found (some n) s = found (some n) s' := by
  have hsub : nnNodeHasSubscribers n = true := by simp [nnNodeHasSubscribers, h1]
  have h0 : n.refcount - 1 = 0 := by rw [h1]; rfl
  have htype : ∀ k : List Frame,
      ({ n with refcount := n.refcount - 1, sockids := .list k } : Node).type =
        n.type := fun _ => rfl
  simp only [found, hsub, hl, Bool.not_true, Bool.false_eq_true, if_false, htype, if_pos h0]
  by_cases ht0 : n.type = 0
  · rw [if_pos ht0, if_pos ht0]
  · have hcompact : ∀ k, nnNodeCompact { n with refcount := n.refcount - 1, sockids := .list k } =
        nnNodeCompact { n with refcount := n.refcount - 1, sockids := .null } := fun k =>
      nnNodeCompact_merges (show merges { n with refcount := n.refcount - 1, sockids := .null } from
        ht.resolve_left ht0) h0 h0 rfl rfl rfl
    rw [if_neg ht0, if_neg ht0, hcompact, hcompact]

/-- **The end of the walk** leaves the trie sound when the count fits. -/
theorem found_sound {n : Node} {s : Frame} (hn : Sound n) (hs : countSound n s) :
    ∃ o r, found (some n) s = some (o, r) ∧ (o = none ↔ n.refcount = 1 ∧ n.type = 0) ∧
      (o = none → r ≠ 0) ∧ SoundRoot o := by
  have hpresent : ∀ s ∈ n.live, ∃ o r, found (some n) s = some (o, r) ∧
      (o = none ↔ n.refcount = 1 ∧ n.type = 0) ∧ (o = none → r ≠ 0) ∧ SoundRoot o := by
    intro s hs
    obtain ⟨o, r, hf, hnone, hr, hshape, -⟩ := found_spec hn.wf hs
    refine ⟨o, r, hf, hnone, fun ho => by rw [hr ho]; decide, ?_⟩
    rintro m rfl
    obtain ⟨hne, l, hl, -⟩ := SocksOk.of_mem_live hs
    have hsub : nnNodeHasSubscribers n = true := by simpa [nnNodeHasSubscribers] using hne
    simp only [found, hsub, hl, Bool.not_true, Bool.false_eq_true, if_false] at hf
    have hwf := hshape m rfl
    split at hf
    · split at hf
      · cases hf
      · obtain ⟨m', hm', hf⟩ := Option.bind_eq_some_iff.mp hf
        cases hf
        exact nnNodeCompact_sound hm' hwf (by simp) fun ch hch => hn.child hch
    · cases hf
      exact hwf.sound (by simp) fun ch hch => hn.child hch
  rw [countSound, decide_eq_true_eq] at hs
  rcases hs with h0 | hs | ⟨h1, ht⟩
  · refine ⟨some n, eInval, found_uncounted s h0, ?_, (absurd · (by simp)), soundRoot_some hn⟩
    simp [h0]
  · exact hpresent s hs
  · -- the one subscriber counted is somebody else, and goes with the node
    have hsock := hn.node.socks
    unfold SocksOk at hsock
    split at hsock
    · next l hl =>
      obtain ⟨s', hs'⟩ : ∃ s', l = [s'] := List.length_eq_one_iff.mp (by rw [← hsock.2, h1]; rfl)
      have hlive : s' ∈ n.live := by
        rw [hn.node.socks.live_eq hl, hs']
        exact List.mem_singleton_self s'
      rw [found_eq_of_goes h1 ht hl s s']
      exact hpresent s' hlive
    · rw [h1] at hsock
      cases hsock

/-- **A label taken out** of an array that is not converted. -/
theorem prune_sound {n ch : Node} {c : UInt8} {i : Nat} (hn : Sound n)
    (hc : nnNodeNext n c = some i) (hch : n.at i = some ch) (hstay : staysDense n) :
    ∃ o, prune (n.setChild i none) i c = some o ∧ (o = none ↔ n.type = 1 ∧ n.refcount = 0) ∧
      SoundRoot o := by
  have hsafe : pruneSafe n := by
    unfold pruneSafe
    unfold staysDense at hstay
    revert hstay
    cases n.u with
    | sparse chars => exact fun _ => by simp [hn.node.init]
    | dense mn mx nbr =>
      intro hstay
      have := of_decide_eq_true hstay
      simp only [decide_eq_true_eq]
      omega
  obtain ⟨o, ho, hnone, hshape, -⟩ := prune_spec hn.wf hc hch hsafe
  refine ⟨o, ho, hnone, ?_⟩
  rintro m rfl
  have hwf := hshape m rfl
  have hold : ∀ p, some p ∈ n.child.set i none → Sound p := fun p hp =>
    hn.child ((List.mem_or_eq_of_mem_set hp).resolve_right (by simp))
  simp only [prune] at ho
  split at ho
  · split at ho
    · split at ho <;> cases ho
    · obtain ⟨m', hm', h⟩ := Option.map_eq_some_iff.mp ho
      cases h
      refine nnNodeCompact_sound hm' hwf hn.node.init fun p hp => ?_
      exact hold p ((List.eraseIdx_sublist _ i).subset hp)
  · next mn mx nbr hu =>
    have hnbr : nbr.toNat > sparseMax + 1 := by
      have hu : n.u = .dense mn mx nbr := hu
      simpa [staysDense, hu] using hstay
    rw [if_pos hnbr] at ho
    split at ho
    · cases ho
      exact hwf.sound hn.node.init fun p hp => hold p (List.mem_of_mem_drop hp)
    · split at ho
      · cases ho
        exact hwf.sound hn.node.init fun p hp => hold p (List.mem_of_mem_take hp)
      · cases ho
        exact hwf.sound hn.node.init hold

/-- **`nn_node_unsubscribe` keeps a trie sound** where the condition holds, also when the pair it is
called for was lost. -/
theorem nnNodeUnsubscribe_sound {n : Node} (hn : Sound n) : ∀ {data : List UInt8} {s : Frame},
    unsubscribeSound (some n) data s → ∃ o r, nnNodeUnsubscribe (some n) data s = some (o, r) ∧
      (o = none ↔ goes (some n) data) ∧ (o = none → r ≠ 0) ∧ SoundRoot o := by
  induction hn with
  | @mk n hnode hkids ih =>
  intro data s hs
  have hn : Sound n := .mk hnode hkids
  by_cases hd : data = []
  · subst hd
    rw [unsubscribeSound_nil] at hs
    rw [nnNodeUnsubscribe, if_pos rfl, goes_nil, decide_eq_true_eq]
    exact found_sound hn hs
  rcases key_cases n data with hpre | rfl | ⟨c, rest, rfl⟩
  · rw [nnNodeUnsubscribe_off s hpre hd, goes_off hpre hd]
    exact ⟨some n, 0, rfl, by simp, (absurd · (by simp)), soundRoot_some hn⟩
  · rw [unsubscribeSound_pre] at hs
    rw [nnNodeUnsubscribe_pre, goes_pre, decide_eq_true_eq]
    exact found_sound hn hs
  · rw [goes_cons]
    cases hc : nnNodeNext n c with
    | none =>
      rw [nnNodeUnsubscribe_cons_none rest s hc]
      exact ⟨some n, 0, rfl, by simp, (absurd · (by simp)), soundRoot_some hn⟩
    | some i =>
      rw [unsubscribeSound_cons, hc, Option.all_some, Bool.and_eq_true] at hs
      obtain ⟨hbelow, hstay⟩ := hs
      obtain ⟨ch, hat⟩ : ∃ ch, n.at i = some ch := by
        cases hat : n.at i with
        | none => rw [hat, unsubscribeSound] at hbelow; cases hbelow
        | some ch => exact ⟨ch, rfl⟩
      rw [hat] at hbelow hstay
      obtain ⟨o, r, hu, hnone, hr, hsound⟩ := ih ch (mem_child_of_at hat) hbelow
      rw [nnNodeUnsubscribe_cons rest s hc, hat, hu, Option.bind_some, Option.any_some, hat]
      cases o with
      | some ch' =>
        -- the child stays
        have hg : goes (some ch) rest = false := by simpa using hnone
        have hset : SoundRoot (some (n.setChild i (some ch'))) :=
          soundRoot_some (hn.replace hc hat (hsound ch' rfl))
        by_cases hr0 : r = 0
        · exact ⟨_, 0, by simp only [if_pos hr0], by simp [hg], (absurd · (by simp)), hset⟩
        · exact ⟨_, 1, by simp [hr0], by simp [hg], (absurd · (by simp)), hset⟩
      | none =>
        -- the child goes
        have hg : goes (some ch) rest = true := by simpa using hnone
        rw [hg] at hstay
        obtain ⟨o, ho, honone, hosound⟩ := prune_sound hn hc hat (by simpa using hstay)
        exact ⟨o, 1, by simp [hr rfl, ho], by simp [honone, hg], fun _ => by decide, hosound⟩

/-! ## Runs -/

/-- The condition on one call: a subscription does not wrap a count, and the condition of
`nn_node_unsubscribe` holds. -/
def Op.sound (root : Option Node) : Op → Bool
  | .subscribe t s => s ∈ held root t ∨ (held root t).length + 1 < 2 ^ 32
  | .unsubscribe t s => unsubscribeSound root t s

/-- Every call of the sequence meets its condition in the trie it is made on. -/
def soundFrom (root : Option Node) : List Op → Bool
  | [] => true
  | op :: ops => op.sound root && (op.exec root).all (soundFrom · ops)

theorem Op.soundRoot {root : Option Node} {pairs : Set (List UInt8 × Frame)} {op : Op}
    (hroot : SoundRoot root) (hop : op.Allowed pairs) (hsound : op.sound root) :
    ∃ root', op.exec root = some root' ∧ SoundRoot root' := by
  cases op with
  | subscribe t s =>
    obtain ⟨n, r, hn, h⟩ := nnTrieSubscribe_sound hroot hop.2 (of_decide_eq_true hsound)
    exact ⟨some n, by rw [Op.exec, hn]; rfl, soundRoot_some h⟩
  | unsubscribe t s =>
    cases root with
    | none => rw [Op.sound, unsubscribeSound] at hsound; cases hsound
    | some n =>
      obtain ⟨o, r, hu, -, -, h⟩ := nnNodeUnsubscribe_sound (hroot n rfl) hsound
      exact ⟨o, by rw [Op.exec, nnTrieUnsubscribe, hu]; rfl, h⟩

theorem exec_soundRoot {ops : List Op} : ∀ {root : Option Node}
    {pairs : Set (List UInt8 × Frame)}, SoundRoot root → AllowedFrom pairs ops →
    soundFrom root ops → ∀ before after, ops = before ++ after →
      ∃ root', exec root before = some root' ∧ SoundRoot root' := by
  induction ops with
  | nil =>
    intro root pairs hroot _ _ before after h
    obtain ⟨rfl, rfl⟩ := List.append_eq_nil_iff.mp h.symm
    exact ⟨root, rfl, hroot⟩
  | cons op ops ih =>
    rintro root pairs hroot ⟨hop, hops⟩ hsound before after h
    rw [soundFrom, Bool.and_eq_true] at hsound
    cases before with
    | nil => exact ⟨root, rfl, hroot⟩
    | cons op' before =>
      obtain ⟨rfl, hrest⟩ := List.cons.inj h
      obtain ⟨root₁, h₁, hroot₁⟩ := Op.soundRoot hroot hop hsound.1
      obtain ⟨root', h', hroot'⟩ := ih hroot₁ hops (by simpa [h₁] using hsound.2) before after hrest
      exact ⟨root', by rw [exec, h₁]; exact h', hroot'⟩

/-- **Every node of every trie is sound**: a run whose calls meet their conditions returns from each
of them, past the assertion of the conversion too, with a sound trie. -/
theorem exec_sound (ops : List Op) (hallowed : AllowedFrom ∅ ops) (hsound : soundFrom none ops) :
    ∀ before after, ops = before ++ after →
      ∃ root, exec none before = some root ∧ SoundRoot root :=
  exec_soundRoot soundRoot_none hallowed hsound

/-- A list lost in a conversion, a tenth key that comes and goes, and the lost pair unsubscribed. -/
def lostInConversion : List Op :=
  .subscribe [97] [1] :: (List.range 10).map (fun i => .subscribe [97, 98 + UInt8.ofNat i] [2]) ++
    [.unsubscribe [97, 100] [2], .unsubscribe [97] [1]]

theorem exec_sound_lostInConversion :
    ∃ root, exec none lostInConversion = some root ∧ SoundRoot root := by
  refine exec_sound lostInConversion ?_ (by decide +kernel) _ [] (List.append_nil _).symm
  simp [lostInConversion, List.range, List.range.loop, AllowedFrom, Op.Allowed, Op.apply]

/-- Nine keys below `a`, and one of them gone: back to a sparse node. -/
def backToSparse : List Op :=
  (List.range 9).map (fun i => .subscribe [97, 98 + UInt8.ofNat i] [1]) ++
    [.unsubscribe [97, 100] [1]]

theorem not_exec_sound : ¬ ∀ ops, AllowedFrom ∅ ops →
    ∃ root, exec none ops = some root ∧ SoundRoot root := by
  intro h
  obtain ⟨root, hexec, hsound⟩ := h backToSparse (by
    simp [backToSparse, List.range, List.range.loop, AllowedFrom, Op.Allowed, Op.apply])
  -- the new node's list was never set
  have hroot : (exec none backToSparse).map (·.map Node.sockids) = some (some .uninit) := by
    decide +kernel
  rw [hexec, Option.map_some, Option.some.injEq] at hroot
  obtain ⟨n, rfl, hn⟩ := Option.map_eq_some_iff.mp hroot
  exact (hsound n rfl).node.init hn

end DoubleDecker.Trie
