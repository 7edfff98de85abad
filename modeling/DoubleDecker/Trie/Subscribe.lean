import DoubleDecker.Trie.Slots
import Mathlib.Algebra.Group.Nat.Defs

/-!
# Trie/Subscribe — `nn_trie_subscribe` adds one pair

`subscribeFrom_spec`: on a well-formed trie the call returns, the trie stays well formed, the
subscribed key gains the socket id and no other key changes — as long as it does not land on a node
whose list was never set, and does not convert a full sparse node that has subscribers
(`subscribeSafe`).
-/

namespace DoubleDecker.Trie

/-- **The branches of `nn_trie_subscribe` that lose or misread a list are not taken.**  Either the
key is spelled by a node with a list, whose count does not wrap, or the new branch leaves a node
that is not both full and subscribed. -/
def subscribeSafe (n : Node) (data : List UInt8) (sockid : Frame) : Bool :=
  if n.pre <+: data then
    match _h : data.drop n.pre.length with
    | [] =>
      match n.sockids with
      | .uninit => false
      | .null => true
      | .list l => decide (sockid ∈ l ∨ l.length + 1 < 2 ^ 32)
    | c :: rest =>
      match n.next c with
      | none => decide (n.type = sparseMax → n.refcount = 0)
      | some ch => subscribeSafe ch rest sockid
  else true
termination_by data.length
decreasing_by
  have := congrArg List.length _h
  simp only [List.length_drop, List.length_cons] at this
  omega

theorem subscribeSafe_pre {n : Node} {sockid : Frame} (h : subscribeSafe n n.pre sockid) :
    n.sockids ≠ .uninit ∧ ∀ l, n.sockids = .list l → sockid ∈ l ∨ l.length + 1 < 2 ^ 32 := by
  rw [subscribeSafe, if_pos (List.prefix_refl _)] at h
  split at h
  · split at h
    · exact absurd h (by simp)
    · next h0 => rw [h0]; simp
    · next l hl =>
      rw [hl]
      exact ⟨by simp, fun l' hl' => by cases hl'; simpa using h⟩
  · next h0 => simp at h0

theorem subscribeSafe_cons {n : Node} {c : UInt8} {rest : List UInt8} {sockid : Frame}
    (h : subscribeSafe n (n.pre ++ c :: rest) sockid) :
    (n.next c = none → n.type = sparseMax → n.refcount = 0) ∧
      ∀ ch, n.next c = some ch → subscribeSafe ch rest sockid := by
  rw [subscribeSafe, if_pos (List.prefix_append _ _)] at h
  split at h
  · next h0 => simp at h0
  · next c' rest' h0 =>
    simp only [List.drop_left, List.cons.injEq] at h0
    obtain ⟨rfl, rfl⟩ := h0
    split at h
    · next h1 =>
      refine ⟨fun _ => of_decide_eq_true h, fun ch hch => ?_⟩
      rw [h1] at hch
      cases hch
    · next ch h1 =>
      refine ⟨fun h2 => ?_, fun ch' hch' => ?_⟩
      · rw [h1] at h2
        cases h2
      · rw [h1] at hch'
        cases hch'
        exact h

/-! ## Prefixes moved between a node and its child -/

/-- A node whose prefix is lengthened by `q ++ [x]` holds the same keys, each behind `q ++ [x]`. -/
theorem subs_shift {m n : Node} {q : List UInt8} {x : UInt8} (hpre : m.pre = q ++ x :: n.pre)
    (hlive : m.live = n.live) (hnext : ∀ c, m.next c = n.next c) (key : List UInt8) :
    subs m (q ++ x :: key) = subs n key := by
  rcases key_cases n key with h | rfl | ⟨c, rest, rfl⟩
  · rw [subs_off h, subs_off]
    rw [hpre, List.prefix_append_right_inj, List.prefix_cons_inj]
    exact h
  · rw [← hpre, subs_pre, subs_pre, hlive]
  · have : q ++ x :: (n.pre ++ c :: rest) = m.pre ++ c :: rest := by simp [hpre]
    rw [this, subs_pre_cons, subs_pre_cons, hnext]

/-- …and no other key. -/
theorem subs_shift_off {m : Node} {q p : List UInt8} {x : UInt8}
    (hpre : m.pre = q ++ x :: p) {key : List UInt8} (h : ¬ q ++ [x] <+: key) : subs m key = [] := by
  refine subs_off fun hm => h (List.IsPrefix.trans ?_ hm)
  exact ⟨p, by simp [hpre]⟩

theorem next_single {n : Node} {x : UInt8} {p : Option Node} (hu : n.u = .sparse [x])
    (hc : n.child = [p]) (c : UInt8) : n.next c = if c = x then p else none := by
  rw [next_sparse hu, hc, List.idxOf?_singleton]
  by_cases h : c = x
  · simp [h]
  · simp [h, Ne.symm h]

/-- **Compaction keeps the contents.** -/
theorem nnNodeCompact_spec {n : Node} (hn : WF n) :
    ∃ n', nnNodeCompact n = some n' ∧ WF n' ∧ ∀ key, subs n' key = subs n key := by
  unfold nnNodeCompact
  split
  · exact ⟨n, rfl, hn, fun _ => rfl⟩
  · next hsub =>
    have h0 : n.refcount = 0 := by simpa [nnNodeHasSubscribers] using hsub
    split
    · next c hu =>
      have hb := hn.ok.branch
      simp only [BranchOk, hu, List.length_singleton] at hb
      obtain ⟨p, hp⟩ := List.length_eq_one_iff.mp hb.2.2.1
      obtain ⟨ch, rfl⟩ := Option.isSome_iff_exists.mp
        (hb.2.2.2.2 p (hp ▸ List.mem_singleton_self p))
      have hat : n.at 0 = some ch := by simp [Node.at, hp]
      have hch : WF ch := hn.child (hp ▸ List.mem_singleton_self _)
      simp only [hat]
      split
      · exact ⟨n, rfl, hn, fun _ => rfl⟩
      · next hle =>
        refine ⟨{ ch with pre := n.pre ++ c :: ch.pre }, rfl,
          ⟨⟨?_, ?_, hch.ok.socks, hch.ok.branch, hch.ok.busy⟩, fun c' hc' => hch.child hc'⟩, ?_⟩
        · simp only [List.length_append, List.length_cons]; omega
        · have hc0 : (0 : UInt8) ≠ c := by simpa using hb.2.2.2.1
          simp only [List.mem_append, List.mem_cons, not_or]
          exact ⟨hn.ok.pre_nul, hc0, hch.ok.pre_nul⟩
        · intro key
          rcases key_cases n key with h | rfl | ⟨c', rest, rfl⟩
          · rw [subs_off h]
            exact subs_off fun hm => h (List.IsPrefix.trans ⟨_, rfl⟩ hm)
          · rw [subs_pre, live_of_refcount h0]
            refine subs_off fun hm => ?_
            have := hm.length_le
            simp only [List.length_append, List.length_cons] at this
            omega
          · rw [subs_pre_cons, next_single hu hp]
            split
            · next hc =>
              subst hc
              exact subs_shift (m := { ch with pre := n.pre ++ c' :: ch.pre }) (n := ch) rfl rfl
                (fun _ => rfl) rest
            · next hc =>
              refine subs_shift_off (q := n.pre) (x := c) (p := ch.pre) rfl fun hm => ?_
              rw [List.prefix_append_right_inj, List.cons_prefix_cons] at hm
              exact hc hm.1.symm
    · exact ⟨n, rfl, hn, fun _ => rfl⟩

/-- **Splitting the prefix keeps the contents** and leaves a node with one child. -/
theorem split_spec {n : Node} (hn : WF n) {q r : List UInt8} {x : UInt8}
    (hpre : n.pre = q ++ x :: r) :
    ∃ m, split n q.length = some m ∧ WF m ∧ m.pre = q ∧ m.sockids = .null ∧ m.live = [] ∧
      m.type = 1 ∧ (∀ c, c ≠ x → m.next c = none) ∧ ∀ key, subs m key = subs n key := by
  have hr : n.pre.drop (q.length + 1) = r := by
    rw [hpre, ← List.drop_drop, List.drop_left, List.drop_one, List.tail_cons]
  have hx : n.pre.getD q.length 0 = x := by rw [hpre]; simp
  have hnul : 0 ∉ q ∧ x ≠ 0 ∧ 0 ∉ r := by
    have h := hn.ok.pre_nul
    rw [hpre, List.mem_append, List.mem_cons, not_or, not_or] at h
    exact ⟨h.1, Ne.symm h.2.1, h.2.2⟩
  have hlen : q.length + r.length + 1 ≤ prefixMax := by
    have h := hn.ok.pre_le
    rw [hpre, List.length_append, List.length_cons] at h
    omega
  have hshort : WF { n with pre := r } :=
    ⟨⟨by simp only; omega, hnul.2.2, hn.ok.socks, hn.ok.branch, hn.ok.busy⟩,
      fun ch hch => hn.child hch⟩
  obtain ⟨ch, hch, hwf, hsubs⟩ := nnNodeCompact_spec hshort
  refine ⟨⟨0, q, .null, .sparse [x], [some ch]⟩, ?_, ⟨⟨?_, hnul.1, rfl, ?_, ?_⟩, ?_⟩, rfl, rfl, rfl,
    rfl, ?_, ?_⟩
  · rw [split, hr, hch, hx, hpre]
    simp
  · simp only; omega
  · exact ⟨List.nodup_singleton x, by simp [sparseMax], rfl, by simpa using hnul.2.1.symm, by simp⟩
  · simp
  · intro ch' hch'
    rw [List.mem_singleton, Option.some.injEq] at hch'
    exact hch' ▸ hwf
  · intro c hc
    rw [next_single rfl rfl, if_neg hc]
  · intro key
    rcases key_cases ⟨0, q, .null, .sparse [x], [some ch]⟩ key with h | rfl | ⟨c, rest, rfl⟩
    · rw [subs_off h]
      refine (subs_off fun hm => h (List.IsPrefix.trans ?_ hm)).symm
      exact ⟨x :: r, hpre.symm⟩
    · rw [subs_pre]
      refine (subs_off fun hm => ?_).symm
      have := hm.length_le
      rw [hpre, List.length_append, List.length_cons] at this
      omega
    · rw [subs_pre_cons, next_single rfl rfl]
      split
      · next hc =>
        subst hc
        exact (hsubs rest).trans
          (subs_shift (m := n) (n := { n with pre := r }) hpre rfl (fun _ => rfl) rest).symm
      · next hc =>
        refine (subs_shift_off hpre fun hm => ?_).symm
        rw [List.prefix_append_right_inj, List.cons_prefix_cons] at hm
        exact hc hm.1.symm

/-! ## The steps -/

/-- **Step 5 on a node with a list, or none.** -/
theorem step5_spec {n : Node} {s : Frame} (hok : SocksOk n) (hinit : n.sockids ≠ .uninit)
    (hroom : ∀ l, n.sockids = .list l → s ∈ l ∨ l.length + 1 < 2 ^ 32) :
    ∃ n' r, step5 n s = some (n', r) ∧ n'.pre = n.pre ∧ n'.u = n.u ∧ n'.child = n.child ∧
      SocksOk n' ∧ n'.refcount ≠ 0 ∧ n'.live = zlistAppendUnique n.live s ∧
      (r = 2 ↔ s ∉ n.live) := by
  unfold step5
  cases hs : n.sockids with
  | uninit => exact absurd hs hinit
  | null =>
    have h0 : n.refcount = 0 := by simpa only [SocksOk, hs] using hok
    refine ⟨_, _, rfl, rfl, rfl, rfl, ?_, ?_, ?_, ?_⟩
    · simp [SocksOk, h0]
    · simp [h0]
    · simp [Node.live, h0, zlistAppendUnique]
    · simp [Node.live, h0]
  | list l =>
    have hlive := hok.live_eq hs
    simp only [SocksOk, hs] at hok
    by_cases hmem : s ∈ l
    · simp only [if_pos hmem]
      have hne : n.refcount ≠ 0 := by
        intro h0
        rw [h0] at hok
        rw [List.eq_nil_of_length_eq_zero hok.2.symm] at hmem
        exact absurd hmem List.not_mem_nil
      refine ⟨_, _, rfl, rfl, rfl, rfl, ?_, hne, ?_, ?_⟩
      · simpa only [SocksOk, hs] using hok
      · rw [hlive, zlistAppendUnique, if_pos hmem]
      · rw [hlive]
        constructor
        · intro h
          split at h <;> omega
        · exact fun h => absurd hmem h
    · simp only [if_neg hmem]
      have hlt := (hroom l hs).resolve_left hmem
      have hcount : (n.refcount + 1).toNat = l.length + 1 := by
        rw [UInt32.toNat_add, hok.2]
        exact Nat.mod_eq_of_lt hlt
      have hne : n.refcount + 1 ≠ 0 := by
        intro h0
        rw [h0] at hcount
        exact absurd hcount (by simp)
      refine ⟨_, _, rfl, rfl, rfl, rfl, ?_, hne, ?_, ?_⟩
      · simp only [SocksOk]
        refine ⟨List.nodup_append.mpr ⟨hok.1, List.nodup_singleton _, ?_⟩, by simp [hcount]⟩
        intro a ha b hb hab
        rw [List.mem_singleton.mp hb] at hab
        exact hmem (hab ▸ ha)
      · rw [hlive, Node.live, if_neg hne, zlistAppendUnique, if_neg hmem]
      · simp [hlive, hmem]

/-- A node that differs in its subscribers only. -/
theorem WF.relabel {n n' : Node} (hn : WF n) (hpre : n'.pre = n.pre) (hu : n'.u = n.u)
    (hchild : n'.child = n.child) (hsocks : SocksOk n') (h0 : n'.refcount ≠ 0) : WF n' := by
  refine ⟨⟨?_, ?_, hsocks, ?_, fun h => absurd h h0⟩, ?_⟩
  · rw [hpre]; exact hn.ok.pre_le
  · rw [hpre]; exact hn.ok.pre_nul
  · rw [hu, hchild]; exact hn.ok.branch
  · rw [hchild]; exact fun ch hch => hn.child hch

/-- **Step 4 makes a chain of nodes that holds one pair.** -/
theorem step4_spec (data : List UInt8) (sockid : Frame) (hnul : 0 ∉ data) :
    ∃ n, step4 data sockid = some (n, 2) ∧ WF n ∧
      ∀ key, subs n key = if key = data then [sockid] else [] := by
  induction data using step4.induct with
  | case1 data h =>
    have hle : data.length ≤ prefixMax := List.drop_eq_nil_iff.mp h
    rw [step4]
    split
    · refine ⟨⟨1, data, .list [sockid], .sparse [], []⟩, rfl, ⟨⟨hle, hnul, ?_, ?_, ?_⟩, ?_⟩, ?_⟩
      · simp [SocksOk]
      · simp [BranchOk]
      · simp
      · simp
      · intro key
        rcases key_cases ⟨1, data, .list [sockid], .sparse [], []⟩ key with
          h' | rfl | ⟨c, rest, rfl⟩
        · rw [subs_off h', if_neg]
          rintro rfl
          exact h' (List.prefix_refl _)
        · rw [subs_pre, if_pos rfl]; rfl
        · rw [subs_pre_cons, if_neg (by simp)]; rfl
    · next h' => rw [h] at h'; cases h'
  | case2 data c rest h ih =>
    obtain ⟨q, hq, hsplit⟩ : ∃ q, data.take prefixMax = q ∧ data = q ++ c :: rest :=
      ⟨_, rfl, by rw [← h, List.take_append_drop]⟩
    have hlen : q.length ≤ prefixMax := by rw [← hq]; exact List.length_take_le _ _
    have hnul' : 0 ∉ q ∧ (0 : UInt8) ≠ c ∧ 0 ∉ rest := by
      rw [hsplit, List.mem_append, List.mem_cons, not_or, not_or] at hnul
      exact hnul
    obtain ⟨ch, hch, hwf, hsubs⟩ := ih hnul'.2.2
    rw [step4]
    split
    · next h' => rw [h] at h'; cases h'
    · next c' rest' h' =>
      rw [h, List.cons.injEq] at h'
      obtain ⟨rfl, rfl⟩ := h'
      refine ⟨⟨0, q, .null, .sparse [c], [some ch]⟩, by rw [hch, hq]; rfl,
        ⟨⟨hlen, hnul'.1, rfl, ?_, by simp⟩, ?_⟩, ?_⟩
      · exact ⟨List.nodup_singleton c, by simp [sparseMax], rfl, by simpa using hnul'.2.1, by simp⟩
      · intro ch' hch'
        rw [List.mem_singleton, Option.some.injEq] at hch'
        exact hch' ▸ hwf
      · intro key
        rw [hsplit]
        rcases key_cases ⟨0, q, .null, .sparse [c], [some ch]⟩ key with
          h' | rfl | ⟨c', rest', rfl⟩
        · rw [subs_off h', if_neg]
          rintro rfl
          exact h' (List.prefix_append _ _)
        · rw [subs_pre, if_neg (by simp)]; rfl
        · rw [subs_pre_cons, next_single rfl rfl]
          by_cases hc : c' = c
          · simp [hc, hsubs]
          · simp [hc]

/-- **A grown node with its new slot filled** keeps its shape. -/
theorem Grown.wf {n m ch : Node} {c : UInt8} {i : Nat} (hg : Grown n c m i) (hn : WF n)
    (hsock : SocksOk m) (hch : WF ch) : WF (m.setChild i (some ch)) := by
  refine ⟨⟨?_, ?_, hsock, hg.filled ch, ?_⟩, ?_⟩
  · rw [pre_setChild, hg.pre]; exact hn.ok.pre_le
  · rw [pre_setChild, hg.pre]; exact hn.ok.pre_nul
  · intro _ h0
    have hlt := hg.lt
    rw [Node.setChild, ← List.length_eq_zero_iff, List.length_set] at h0
    omega
  · intro ch' hch'
    rcases List.mem_or_eq_of_mem_set hch' with h | h
    · exact hn.child (hg.old ch' h)
    · cases h; exact hch

/-- **The keys behind the new label** come from the child in its slot. -/
theorem Grown.wf_subs {n m ch : Node} {c : UInt8} {i : Nat} (hg : Grown n c m i) (hn : WF n)
    (hsock : SocksOk m) (hlive : m.live = n.live) (hch : WF ch) :
    WF (m.setChild i (some ch)) ∧
      (∀ rest, subs (m.setChild i (some ch)) (n.pre ++ c :: rest) = subs ch rest) ∧
      ∀ key, (∀ rest, key ≠ n.pre ++ c :: rest) →
        subs (m.setChild i (some ch)) key = subs n key := by
  refine ⟨hg.wf hn hsock hch, ?_, ?_⟩
  · intro rest
    rw [← hg.pre, ← pre_setChild m i (some ch), subs_pre_cons, next_setChild_self _ hg.slot hg.lt]
    rfl
  · intro key hkey
    rcases key_cases n key with h | rfl | ⟨c', rest, rfl⟩
    · rw [subs_off h, subs_off]
      rwa [pre_setChild, hg.pre]
    · rw [subs_pre, ← hg.pre, ← pre_setChild m i (some ch), subs_pre, live_setChild, hlive]
    · have hne : c' ≠ c := by rintro rfl; exact hkey rest rfl
      rw [subs_pre_cons, ← hg.pre, ← pre_setChild m i (some ch), subs_pre_cons,
        next_setChild_ne _ hg.slot hne, hg.other c' hne]

/-- **Step 3 with data left**: the new branch holds the one pair. -/
theorem step3_spec {n : Node} (hn : WF n) {c : UInt8} {rest : List UInt8} {s : Frame}
    (hnul : 0 ∉ c :: rest) (hc : n.next c = none) (hsafe : n.type = sparseMax → n.refcount = 0) :
    ∃ n', step3 n (c :: rest) s = some (n', 2) ∧ WF n' ∧ ∀ key, subs n' key =
      if key = n.pre ++ c :: rest then zlistAppendUnique (subs n key) s else subs n key := by
  rw [List.mem_cons, not_or] at hnul
  obtain ⟨ch, hch, hwf, hsubs⟩ := step4_spec rest s hnul.2
  have hg := growChild_grown hn.ok.branch hc (Ne.symm hnul.1)
  obtain ⟨hwf', hnew, hold⟩ := hg.wf_subs hn (growChild_socks c hn.ok)
    (growChild_live hn.ok hsafe) hwf
  refine ⟨_, by rw [step3, hch]; rfl, hwf', fun key => ?_⟩
  by_cases hkey : ∃ rest', key = n.pre ++ c :: rest'
  · obtain ⟨rest', rfl⟩ := hkey
    rw [hnew, hsubs, subs_pre_cons, hc]
    by_cases hr : rest' = rest
    · simp [hr, zlistAppendUnique]
    · simp [hr]
  · rw [hold key fun rest' h => hkey ⟨rest', h⟩, if_neg fun h => hkey ⟨rest, h⟩]

/-- **The subscriber list of a node in place of another.** -/
theorem subs_of_same_children {n n' : Node} (hpre : n'.pre = n.pre) (hu : n'.u = n.u)
    (hchild : n'.child = n.child) (key : List UInt8) :
    subs n' key = if key = n.pre then n'.live else subs n key := by
  have hnext : ∀ c, n'.next c = n.next c := fun c => by
    unfold Node.next nnNodeNext Node.at
    rw [hu, hchild]
  rcases key_cases n key with h | rfl | ⟨c, rest, rfl⟩
  · rw [subs_off h, subs_off (hpre ▸ h), if_neg]
    rintro rfl
    exact h (List.prefix_refl _)
  · rw [if_pos rfl, ← hpre, subs_pre]
  · rw [subs_pre_cons, ← hpre, subs_pre_cons, if_neg (by simp), hnext]

/-! ## Step 1, case by case -/

theorem subscribeFrom_split {n : Node} {q e : List UInt8} {sockid : Frame}
    (hlt : q.length < n.pre.length) (hpos : nnNodeCheckPrefix n.pre (q ++ e) = q.length) :
    subscribeFrom n (q ++ e) sockid = (split n q.length).bind (step3 · e sockid) := by
  rw [subscribeFrom]
  simp only [hpos, if_pos hlt, List.drop_left]
  rfl

theorem subscribeFrom_pre (n : Node) (sockid : Frame) :
    subscribeFrom n n.pre sockid = step5 n sockid := by
  have hpos : nnNodeCheckPrefix n.pre n.pre = n.pre.length :=
    nnNodeCheckPrefix_eq_iff.mpr (List.prefix_refl _)
  rw [subscribeFrom]
  simp only [hpos, Nat.lt_irrefl, if_false]
  split
  · rfl
  · next h => rw [hpos, List.drop_length] at h; cases h

theorem subscribeFrom_cons (n : Node) (c : UInt8) (rest : List UInt8) (sockid : Frame) :
    subscribeFrom n (n.pre ++ c :: rest) sockid =
      match nnNodeNext n c with
      | none => step3 n (c :: rest) sockid
      | some i =>
        match n.at i with
        | none => step3 n (c :: rest) sockid
        | some ch => (subscribeFrom ch rest sockid).map fun p =>
          (n.setChild i (some p.1), p.2) := by
  rw [subscribeFrom]
  simp only [nnNodeCheckPrefix_append, Nat.lt_irrefl, if_false]
  split
  · next h => rw [nnNodeCheckPrefix_append, List.drop_left] at h; cases h
  · next c' rest' h =>
    rw [nnNodeCheckPrefix_append, List.drop_left, List.cons.injEq] at h
    obtain ⟨rfl, rfl⟩ := h
    cases nnNodeNext n c with
    | none => rfl
    | some i =>
      simp only
      cases n.at i with
      | none => rfl
      | some ch =>
        simp only
        cases subscribeFrom ch rest sockid <;> rfl

/-- A child in place of another keeps the array in shape. -/
theorem BranchOk.set_some {u : Branch} {child : List (Option Node)} {i : Nat} {ch x : Node}
    (h : BranchOk u child) (hi : child[i]? = some (some ch)) :
    BranchOk u (child.set i (some x)) := by
  obtain ⟨hlt, hget⟩ := List.getElem?_eq_some_iff.mp hi
  have hend : ∀ j : Nat, (∃ y, child[j]? = some (some y)) →
      ∃ y, (child.set i (some x))[j]? = some (some y) := by
    rintro j ⟨y, hy⟩
    by_cases hij : i = j
    · exact ⟨x, by rw [← hij, List.getElem?_set_self hlt]⟩
    · exact ⟨y, by rw [List.getElem?_set_ne hij, hy]⟩
  unfold BranchOk at h ⊢
  cases u with
  | sparse cs =>
    obtain ⟨hnd, hle, hlen, hz, hsome⟩ := h
    refine ⟨hnd, hle, by rw [List.length_set, hlen], hz, fun p hp => ?_⟩
    rcases List.mem_or_eq_of_mem_set hp with h | rfl
    · exact hsome p h
    · rfl
  | dense mn mx nbr =>
    obtain ⟨hmn, hle, hlen, h8, hnbr, hfst, hlst⟩ := h
    refine ⟨hmn, hle, by rw [List.length_set, hlen], h8, ?_, hend _ hfst, hend _ hlst⟩
    rw [List.countP_set hlt, hget, hnbr]
    have : 0 < child.countP (·.isSome) :=
      List.countP_pos_iff.mpr ⟨some ch, List.mem_of_getElem? hi, rfl⟩
    simp only [Option.isSome_some, if_true]
    omega

/-- **A child in place of another**, one that holds some more below the same label. -/
theorem WF.replace {n ch ch' : Node} {c : UInt8} {i : Nat} (hn : WF n)
    (hi : nnNodeNext n c = some i) (hat : n.at i = some ch) (hch' : WF ch') :
    WF (n.setChild i (some ch')) ∧
      (∀ rest, subs (n.setChild i (some ch')) (n.pre ++ c :: rest) = subs ch' rest) ∧
      ∀ key, (∀ rest, key ≠ n.pre ++ c :: rest) →
        subs (n.setChild i (some ch')) key = subs n key := by
  have hlt := hn.ok.branch.slot_lt hi
  have hget : n.child[i]? = some (some ch) := Option.join_eq_some_iff.mp hat
  refine Grown.wf_subs ⟨rfl, hi, hlt, fun _ _ => rfl, fun x => ?_, fun _ h => h⟩ hn hn.ok.socks rfl
    hch'
  exact hn.ok.branch.set_some hget

/-- **`nn_trie_subscribe` adds one pair to a trie that is not empty.** -/
theorem subscribeFrom_spec {n : Node} {data : List UInt8} {sockid : Frame} (hn : WF n)
    (hnul : 0 ∉ data) (hsafe : subscribeSafe n data sockid) :
    ∃ n' r, subscribeFrom n data sockid = some (n', r) ∧ WF n' ∧
      (r = 2 ↔ sockid ∉ subs n data) ∧ ∀ key, subs n' key =
        if key = data then zlistAppendUnique (subs n key) sockid else subs n key := by
  induction hn generalizing data with
  | @mk n hok hkids ih =>
  have hn : WF n := .mk hok hkids
  rcases key_cases n data with hpre | rfl | ⟨c, rest, rfl⟩
  · -- the prefix matches in part only: split it
    have hlt : nnNodeCheckPrefix n.pre data < n.pre.length :=
      lt_of_le_of_ne (nnNodeCheckPrefix_le _ _) fun h => hpre (nnNodeCheckPrefix_eq_iff.mp h)
    obtain ⟨q, x, r, e, hq, rfl, hpos, he⟩ := exists_split_of_lt hlt
    rw [hpos] at hlt
    obtain ⟨m, hm, hwf, hmpre, hnull, hlive, htype, hnext, hsubs⟩ := split_spec hn hq
    rw [subscribeFrom_split hlt hpos, hm, Option.bind_some]
    cases e with
    | nil =>
      obtain ⟨n', r', h5, h5pre, h5u, h5c, h5s, h5r, h5l, h5iff⟩ := step5_spec (s := sockid)
        hwf.ok.socks (by rw [hnull]; simp) (by rw [hnull]; simp)
      have hdata : q ++ [] = m.pre := by rw [List.append_nil, hmpre]
      have hempty : subs n (q ++ []) = [] := by rw [hdata, ← hsubs, subs_pre, hlive]
      refine ⟨n', r', h5, hwf.relabel h5pre h5u h5c h5s h5r, ?_, ?_⟩
      · rw [h5iff, hlive, hempty]
      · intro key
        rw [subs_of_same_children h5pre h5u h5c, hdata, h5l, hlive]
        split
        · next hk => rw [hk, ← hdata, hempty]
        · exact hsubs key
    | cons c rest =>
      have hcx : c ≠ x := fun h => he (by rw [h]; rfl)
      have hnul' : 0 ∉ c :: rest := fun h => hnul (List.mem_append_right _ h)
      obtain ⟨n', h3, hwf', h3s⟩ := step3_spec (s := sockid) hwf hnul' (hnext c hcx)
        (fun h => by rw [htype] at h; exact absurd h (by decide))
      have hempty : subs n (q ++ c :: rest) = [] := subs_off hpre
      refine ⟨n', 2, h3, hwf', by simp [hempty], fun key => ?_⟩
      rw [h3s, hmpre, hsubs]
  · -- the key ends at this node
    obtain ⟨hinit, hroom⟩ := subscribeSafe_pre hsafe
    obtain ⟨n', r, h5, h5pre, h5u, h5c, h5s, h5r, h5l, h5iff⟩ :=
      step5_spec (s := sockid) hn.ok.socks hinit hroom
    refine ⟨n', r, by rw [subscribeFrom_pre, h5], hn.relabel h5pre h5u h5c h5s h5r, ?_, ?_⟩
    · rw [h5iff, subs_pre]
    · intro key
      rw [subs_of_same_children h5pre h5u h5c, h5l]
      split
      · next hk => rw [hk, subs_pre]
      · rfl
  · -- the key goes on below this node
    obtain ⟨hfull, hbelow⟩ := subscribeSafe_cons hsafe
    have hnul' : 0 ∉ c :: rest := fun h => hnul (List.mem_append_right _ h)
    rw [subscribeFrom_cons]
    cases hc : n.next c with
    | none =>
      obtain ⟨n', h3, hwf', h3s⟩ := step3_spec (s := sockid) hn hnul' hc (hfull hc)
      refine ⟨n', 2, ?_, hwf', by simp [subs_pre_cons, hc], h3s⟩
      cases hi : nnNodeNext n c with
      | none => exact h3
      | some i =>
        rw [Node.next, hi, Option.bind_some] at hc
        simp only [hc]
        exact h3
    | some ch =>
      obtain ⟨i, hi, hat⟩ := Option.bind_eq_some_iff.mp hc
      obtain ⟨ch', r, hsub, hwf', hr, hs⟩ := ih ch (mem_child_of_at hat)
        (fun h => hnul' (List.mem_cons_of_mem _ h)) (hbelow ch hc)
      obtain ⟨hwf'', hnew, hold⟩ := hn.replace hi hat hwf'
      simp only [hi, hat, hsub, Option.map_some]
      refine ⟨_, _, rfl, hwf'', ?_, fun key => ?_⟩
      · rw [hr, subs_pre_cons, hc]; rfl
      · by_cases hkey : ∃ rest', key = n.pre ++ c :: rest'
        · obtain ⟨rest', rfl⟩ := hkey
          rw [hnew, hs, subs_pre_cons, hc]
          simp
        · rw [hold key fun rest' h => hkey ⟨rest', h⟩, if_neg fun h => hkey ⟨rest, h⟩]

/-- **`nn_trie_subscribe` on an empty trie.** -/
theorem nnTrieSubscribe_none {data : List UInt8} (sockid : Frame) (hnul : 0 ∉ data) :
    ∃ n, nnTrieSubscribe none data sockid = some (some n, 2) ∧ WF n ∧
      ∀ key, subs n key = if key = data then [sockid] else [] := by
  obtain ⟨n, h4, hwf, hs⟩ := step4_spec data sockid hnul
  exact ⟨n, by rw [nnTrieSubscribe]; simp [h4], hwf, hs⟩

end DoubleDecker.Trie
