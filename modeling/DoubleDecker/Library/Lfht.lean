import Mathlib.Data.List.Basic
import Mathlib.Data.List.Nodup
import Mathlib.Data.List.Perm.Basic

/-!
# Library/Lfht — a hash table with a match function

A `cds_lfht` table is the list of its nodes, each with the hash it was added under.  A lookup takes
the first node whose hash is the one looked for and that the caller's match function accepts; the
table itself compares no keys and allows duplicates.  `MatchFn` may return `none`: the match
function read past the end of a key.
-/

namespace DoubleDecker

/-- A table of nodes of type `α` under hashes of type `H`. -/
abbrev Lfht (H α : Type) := List (H × α)

namespace Lfht

variable {H α : Type}

/-- `cds_lfht_lookup`: `none` when the match function misread, `some none` when nothing matches. -/
def lookup [DecidableEq H] (t : Lfht H α) (h : H) (m : α → Option Bool) : Option (Option α) :=
  match t with
  | [] => some none
  | (h', a) :: t =>
    if h' = h then
      match m a with
      | none => none
      | some true => some (some a)
      | some false => lookup t h m
    else lookup t h m

/-- `cds_lfht_add`. -/
def add (t : Lfht H α) (h : H) (a : α) : Lfht H α := t ++ [(h, a)]

/-- `cds_lfht_del` of the node a lookup with the same arguments finds. -/
def del [DecidableEq H] (t : Lfht H α) (h : H) (m : α → Option Bool) : Lfht H α :=
  t.eraseP fun e => decide (e.1 = h) && (m e.2 == some true)

/-- A write to the node a lookup with the same arguments finds. -/
def modify [DecidableEq H] (t : Lfht H α) (h : H) (m : α → Option Bool) (f : α → α) : Lfht H α :=
  match t with
  | [] => []
  | e :: t => if e.1 = h ∧ m e.2 = some true then (e.1, f e.2) :: t else e :: modify t h m f

/-- The nodes, in the order they were added; `cds_lfht` itself meets them in an order of their
hashes. -/
def nodes (t : Lfht H α) : List α := t.map Prod.snd

@[simp] theorem nodes_nil : nodes ([] : Lfht H α) = [] := rfl

@[simp] theorem nodes_add (t : Lfht H α) (h : H) (a : α) : nodes (t.add h a) = nodes t ++ [a] := by
  simp [nodes, add]

/-! ## Tables keyed by a function of the node

Every node of `t` is stored under the hash of its key, the hash is injective, and among nodes of
equal key the match function decides equality of the keys.
-/

variable {K : Type}

/-- Every node is stored under the hash of its key. -/
def Keyed (t : Lfht H α) (hash : K → H) (key : α → K) : Prop := ∀ e ∈ t, e.1 = hash (key e.2)

theorem keyed_nil (hash : K → H) (key : α → K) : Keyed ([] : Lfht H α) hash key :=
  fun _ h => absurd h List.not_mem_nil

theorem Keyed.add {t : Lfht H α} {hash : K → H} {key : α → K} (ht : Keyed t hash key) (a : α) :
    Keyed (t.add (hash (key a)) a) hash key := by
  intro e he
  rcases List.mem_append.mp he with he | he
  · exact ht e he
  · rw [List.mem_singleton.mp he]

theorem Keyed.del [DecidableEq H] {t : Lfht H α} {hash : K → H} {key : α → K}
    (ht : Keyed t hash key) (h : H)
    (m : α → Option Bool) : Keyed (t.del h m) hash key :=
  fun e he => ht e (List.mem_of_mem_eraseP he)

/-- **A lookup by key** — the first node with that key. -/
theorem lookup_eq_find? [DecidableEq H] {t : Lfht H α} {hash : K → H} {key : α → K} [DecidableEq K]
    (hinj : Function.Injective hash) (ht : Keyed t hash key) {k : K} {m : α → Option Bool}
    (hm : ∀ a, key a = k → m a = some true) :
    t.lookup (hash k) m = some (t.nodes.find? fun a => key a = k) := by
  induction t with
  | nil => rfl
  | cons e t ih =>
    have he : e.1 = hash (key e.2) := ht e List.mem_cons_self
    have ih' := ih fun e' he' => ht e' (List.mem_cons_of_mem _ he')
    simp only [lookup, nodes, List.map_cons, List.find?_cons]
    by_cases hk : key e.2 = k
    · rw [he, hk, if_pos rfl, hm e.2 hk]
      simp
    · rw [if_neg fun h => hk (hinj (he.symm.trans h)), ih']
      simp [hk, nodes]

/-- What a lookup finds is in the table. -/
theorem mem_of_lookup [DecidableEq H] {t : Lfht H α} {h : H} {m : α → Option Bool} {a : α}
    (hl : t.lookup h m = some (some a)) : a ∈ t.nodes := by
  induction t with
  | nil => cases hl
  | cons e t ih =>
    rw [lookup] at hl
    split at hl
    · split at hl
      · cases hl
      · cases hl
        exact List.mem_cons_self
      · exact List.mem_cons_of_mem _ (ih hl)
    · exact List.mem_cons_of_mem _ (ih hl)

/-- **Deletion by key** takes the first node with that key. -/
theorem nodes_del [DecidableEq H] {t : Lfht H α} {hash : K → H} {key : α → K} [DecidableEq K]
    (hinj : Function.Injective hash) (ht : Keyed t hash key) {k : K} {m : α → Option Bool}
    (hm : ∀ a, key a = k → m a = some true) :
    (t.del (hash k) m).nodes = t.nodes.eraseP fun a => key a = k := by
  induction t with
  | nil => rfl
  | cons e t ih =>
    have he : e.1 = hash (key e.2) := ht e List.mem_cons_self
    have ih' := ih fun e' he' => ht e' (List.mem_cons_of_mem _ he')
    simp only [del, nodes, List.map_cons, List.eraseP_cons] at ih' ⊢
    by_cases hk : key e.2 = k
    · simp [he, hk, hm e.2 hk]
    · have hne : e.1 ≠ hash k := fun h => hk (hinj (he.symm.trans h))
      simp [hne, hk, ih']

/-- A search by key finds the node with the key. -/
theorem find?_key_eq_some {l : List α} {key : α → K} [DecidableEq K] (hnd : (l.map key).Nodup)
    {k : K} {a : α} : l.find? (fun a => key a = k) = some a ↔ a ∈ l ∧ key a = k := by
  induction l with
  | nil => simp
  | cons b l ih =>
    rw [List.map_cons, List.nodup_cons] at hnd
    rw [List.find?_cons, List.mem_cons]
    by_cases hb : key b = k
    · simp only [hb, decide_true, Option.some.injEq]
      constructor
      · rintro rfl
        exact ⟨Or.inl rfl, hb⟩
      · rintro ⟨rfl | ha, hk⟩
        · rfl
        · exact absurd (hb.trans hk.symm ▸ List.mem_map_of_mem ha) hnd.1
    · simp only [hb, decide_false, ih hnd.2]
      constructor
      · exact fun h => ⟨Or.inr h.1, h.2⟩
      · rintro ⟨rfl | ha, hk⟩
        · exact absurd hk hb
        · exact ⟨ha, hk⟩

theorem eraseP_key_eq_filter {l : List α} {key : α → K} [DecidableEq K] (hnd : (l.map key).Nodup)
    (k : K) : l.eraseP (fun a => key a = k) = l.filter fun a => key a ≠ k := by
  induction l with
  | nil => rfl
  | cons b l ih =>
    rw [List.map_cons, List.nodup_cons] at hnd
    by_cases hb : key b = k
    · have hall : ∀ a ∈ l, key a ≠ k := fun a ha hak =>
        hnd.1 (hb.trans hak.symm ▸ List.mem_map_of_mem ha)
      rw [List.eraseP_cons_of_pos (by simpa using hb), List.filter_cons_of_neg (by simpa using hb),
        List.filter_eq_self.mpr fun a ha => by simpa using hall a ha]
    · rw [List.eraseP_cons_of_neg (by simpa using hb), List.filter_cons_of_pos (by simpa using hb),
        ih hnd.2]

/-- **Deletion by key** in a table without duplicate keys leaves the nodes with another key. -/
theorem mem_nodes_del [DecidableEq H] {t : Lfht H α} {hash : K → H} {key : α → K} [DecidableEq K]
    (hinj : Function.Injective hash) (ht : Keyed t hash key) (hnd : (t.nodes.map key).Nodup) {k : K}
    {m : α → Option Bool} (hm : ∀ a, key a = k → m a = some true) {a : α} :
    a ∈ (t.del (hash k) m).nodes ↔ a ∈ t.nodes ∧ key a ≠ k := by
  rw [nodes_del hinj ht hm, eraseP_key_eq_filter hnd, List.mem_filter]
  simp

theorem nodup_nodes_del [DecidableEq H] {t : Lfht H α} {key : α → K}
    (hnd : (t.nodes.map key).Nodup) (h : H) (m : α → Option Bool) :
    ((t.del h m).nodes.map key).Nodup := by
  refine hnd.sublist (List.Sublist.map key (List.Sublist.map Prod.snd ?_))
  exact List.eraseP_sublist

/-- Adding a key that is not there keeps the keys distinct. -/
theorem nodup_nodes_add {t : Lfht H α} {key : α → K} (hnd : (t.nodes.map key).Nodup) (h : H)
    {a : α} (ha : ∀ b ∈ t.nodes, key b ≠ key a) : ((t.add h a).nodes.map key).Nodup := by
  rw [nodes_add, List.map_append, List.map_singleton]
  refine List.nodup_append.mpr ⟨hnd, List.nodup_singleton _, ?_⟩
  intro x hx y hy hxy
  obtain ⟨b, hb, rfl⟩ := List.mem_map.mp hx
  exact ha b hb (hxy.trans (List.mem_singleton.mp hy))

/-- **A write by key** in a table without duplicate keys. -/
theorem nodes_modify [DecidableEq H] {t : Lfht H α} {hash : K → H} {key : α → K} [DecidableEq K]
    (hinj : Function.Injective hash) (ht : Keyed t hash key) (hnd : (t.nodes.map key).Nodup) {k : K}
    {m : α → Option Bool} (hm : ∀ a, key a = k → m a = some true) (f : α → α) :
    (t.modify (hash k) m f).nodes = t.nodes.map fun a => if key a = k then f a else a := by
  induction t with
  | nil => rfl
  | cons e t ih =>
    have he : e.1 = hash (key e.2) := ht e List.mem_cons_self
    rw [nodes, List.map_cons, List.map_cons, List.nodup_cons] at hnd
    have ih' := ih (fun e' he' => ht e' (List.mem_cons_of_mem _ he')) hnd.2
    by_cases hk : key e.2 = k
    · have hother : ∀ a ∈ nodes t, key a ≠ k := fun a ha hak =>
        hnd.1 (hk.trans hak.symm ▸ List.mem_map_of_mem ha)
      rw [modify, if_pos ⟨he.trans (by rw [hk]), hm e.2 hk⟩]
      simp only [nodes, List.map_cons, hk, if_true, List.cons.injEq, true_and]
      exact (List.map_congr_left fun a ha => if_neg (hother a ha)).trans (List.map_id _) |>.symm
    · rw [modify, if_neg fun h => hk (hinj (he.symm.trans h.1))]
      simp only [nodes, List.map_cons, hk, if_false] at ih' ⊢
      rw [ih']

theorem Keyed.modify [DecidableEq H] {t : Lfht H α} {hash : K → H} {key : α → K}
    (ht : Keyed t hash key) (h : H) (m : α → Option Bool) {f : α → α}
    (hf : ∀ a, key (f a) = key a) : Keyed (t.modify h m f) hash key := by
  induction t with
  | nil => exact keyed_nil hash key
  | cons e t ih =>
    have he : e.1 = hash (key e.2) := ht e List.mem_cons_self
    have ih' := ih fun e' he' => ht e' (List.mem_cons_of_mem _ he')
    unfold Lfht.modify
    split
    · intro e' he'
      rcases List.mem_cons.mp he' with rfl | he'
      · rw [hf]; exact he
      · exact ht e' (List.mem_cons_of_mem _ he')
    · intro e' he'
      rcases List.mem_cons.mp he' with rfl | he'
      · exact he
      · exact ih' e' he'

/-- **A lookup in a table without duplicate keys** — the match function is asked about the one node
with the key. -/
theorem lookup_of_nodup [DecidableEq H] {t : Lfht H α} {hash : K → H} {key : α → K}
    [DecidableEq K] (hinj : Function.Injective hash) (ht : Keyed t hash key)
    (hnd : (t.nodes.map key).Nodup) (k : K) (m : α → Option Bool) :
    t.lookup (hash k) m =
      match t.nodes.find? fun a => key a = k with
      | none => some none
      | some a => (m a).map fun b => if b then some a else none := by
  induction t with
  | nil => rfl
  | cons e t ih =>
    have he : e.1 = hash (key e.2) := ht e List.mem_cons_self
    rw [nodes, List.map_cons, List.map_cons, List.nodup_cons] at hnd
    have ih' := ih (fun e' he' => ht e' (List.mem_cons_of_mem _ he')) hnd.2
    simp only [lookup, nodes, List.map_cons, List.find?_cons]
    by_cases hk : key e.2 = k
    · -- no other node has the key
      have hnone : (nodes t).find? (fun a => key a = k) = none := by
        rw [List.find?_eq_none]
        intro a ha hak
        rw [decide_eq_true_eq] at hak
        exact hnd.1 (hk.trans hak.symm ▸ List.mem_map_of_mem ha)
      rw [hnone] at ih'
      rw [he, hk, if_pos rfl]
      cases hm : m e.2 with
      | none => simp [hm]
      | some b =>
        cases b with
        | true => simp [hm]
        | false => simpa [hm] using ih'
    · rw [if_neg fun h => hk (hinj (he.symm.trans h)), ih']
      simp [hk, nodes]

/-! ## Lookups under any hash

Without an injective hash the match function alone tells the nodes of one hash apart.  `wanted` says
which nodes the caller means, `near` which ones the match function does not refuse.
-/

/-- **An exact lookup** — what is returned is wanted, and something is returned when something
wanted is there. -/
def Exact (r : Option (Option α)) (nodes : List α) (wanted : α → Prop) : Prop :=
  ∃ o, r = some o ∧ (∀ a, o = some a → wanted a) ∧ (o = none → ∀ a ∈ nodes, ¬ wanted a)

/-- A node that is near but not wanted comes before every one that is wanted. -/
def Shadowed (nodes : List α) (near wanted : α → Prop) : Prop :=
  ∃ before a after, nodes = before ++ a :: after ∧ near a ∧ ¬ wanted a ∧ ∀ b ∈ before, ¬ wanted b

theorem not_shadowed_nil (near wanted : α → Prop) : ¬ Shadowed [] near wanted := by
  rintro ⟨before, a, after, h, -⟩
  simp at h

theorem shadowed_cons {a : α} {nodes : List α} {near wanted : α → Prop} :
    Shadowed (a :: nodes) near wanted ↔ ¬ wanted a ∧ (near a ∨ Shadowed nodes near wanted) := by
  constructor
  · rintro ⟨before, b, after, h, hnear, hb, hbefore⟩
    cases before with
    | nil =>
      obtain ⟨rfl, rfl⟩ := List.cons.inj h
      exact ⟨hb, Or.inl hnear⟩
    | cons x before =>
      obtain ⟨rfl, hnodes⟩ := List.cons.inj h
      exact ⟨hbefore a List.mem_cons_self, Or.inr ⟨before, b, after, hnodes, hnear, hb, fun y hy =>
        hbefore y (List.mem_cons_of_mem _ hy)⟩⟩
  · rintro ⟨ha, hnear | ⟨before, b, after, rfl, hnear, hb, hbefore⟩⟩
    · exact ⟨[], a, nodes, rfl, hnear, ha, by simp⟩
    · refine ⟨a :: before, b, after, rfl, hnear, hb, fun y hy => ?_⟩
      rcases List.mem_cons.mp hy with rfl | hy
      · exact ha
      · exact hbefore y hy

theorem exact_found {a : α} {nodes : List α} {wanted : α → Prop} :
    Exact (some (some a)) nodes wanted ↔ wanted a := by
  constructor
  · rintro ⟨o, ho, h, -⟩
    exact h a (Option.some.inj ho).symm
  · intro h
    refine ⟨some a, rfl, ?_, fun h => by cases h⟩
    rintro _ ⟨⟩
    exact h

theorem exact_cons {r : Option (Option α)} {a : α} {nodes : List α} {wanted : α → Prop}
    (ha : ¬ wanted a) : Exact r (a :: nodes) wanted ↔ Exact r nodes wanted := by
  refine exists_congr fun o => and_congr_right fun _ => and_congr_right fun _ =>
    imp_congr_right fun _ => ?_
  rw [List.forall_mem_cons]
  exact and_iff_right ha

/-- **A lookup is exact just when nothing near stands in front of what is wanted.** -/
theorem exact_lookup_iff [DecidableEq H] {t : Lfht H α} {h : H} {m : α → Option Bool}
    {near wanted : α → Prop} (hnear : ∀ e ∈ t, near e.2 ↔ e.1 = h ∧ m e.2 ≠ some false)
    (hwanted : ∀ e ∈ t, wanted e.2 → e.1 = h ∧ m e.2 = some true) :
    Exact (t.lookup h m) t.nodes wanted ↔ ¬ Shadowed t.nodes near wanted := by
  induction t with
  | nil => exact iff_of_true ⟨none, rfl, by simp, by simp⟩ (not_shadowed_nil near wanted)
  | cons e t ih =>
    have ih' := ih (fun e' he' => hnear e' (List.mem_cons_of_mem _ he'))
      fun e' he' => hwanted e' (List.mem_cons_of_mem _ he')
    have hn := hnear e List.mem_cons_self
    have hw := hwanted e List.mem_cons_self
    rw [lookup, show nodes (e :: t) = e.2 :: nodes t from rfl, shadowed_cons]
    by_cases hh : e.1 = h
    · rw [if_pos hh]
      cases hm : m e.2 with
      | none =>
        -- the match function reads past the end
        have hnw : ¬ wanted e.2 := fun h' => by rw [(hw h').2] at hm; cases hm
        refine iff_of_false ?_ (not_not.mpr ⟨hnw, Or.inl (hn.mpr ⟨hh, by simp [hm]⟩)⟩)
        rintro ⟨o, ho, -⟩
        cases ho
      | some b =>
        cases b with
        | true =>
          simp only [exact_found]
          by_cases hwe : wanted e.2
          · exact iff_of_true hwe fun h' => h'.1 hwe
          · exact iff_of_false hwe (not_not.mpr ⟨hwe, Or.inl (hn.mpr ⟨hh, by simp [hm]⟩)⟩)
        | false =>
          have hnw : ¬ wanted e.2 := fun h' => by rw [(hw h').2] at hm; cases hm
          have hnn : ¬ near e.2 := fun h' => (hn.mp h').2 hm
          simp only [exact_cons hnw, ih', hnw, hnn, not_false_eq_true, true_and, false_or]
    · have hnw : ¬ wanted e.2 := fun h' => hh (hw h').1
      have hnn : ¬ near e.2 := fun h' => hh (hn.mp h').1
      simp only [if_neg hh, exact_cons hnw, ih', hnw, hnn, not_false_eq_true, true_and, false_or]

end Lfht

end DoubleDecker
