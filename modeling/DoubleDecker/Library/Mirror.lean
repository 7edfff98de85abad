import Mathlib.Logic.Basic

/-!
# Library/Mirror — a flag and its copy at the other end of a queue

One end has a flag and tells the other end when it sets or clears it; the other end keeps a copy,
and may refuse to set it, or give it up, and say so.  `Mirror` is what holds between the two
whatever is on its way, as long as a refusal only clears a flag that has not been set anew: with
nothing on its way the copy is right (`Mirror.exact`), and a question that is asked while the flag
is clear never meets a copy that is set (`Mirror.of_ask`).
-/

namespace DoubleDecker

/-- What the end with the flag says. -/
inductive Notice where
  /-- The flag was set. -/
  | add
  /-- The flag was cleared. -/
  | del
  /-- A question that is asked while the flag is clear. -/
  | ask
  deriving DecidableEq

/-- **The notices lead from one value to another** — each one makes sense after those before it. -/
def Reads : Prop → List Notice → Prop → Prop
  | flag, [], flag' => flag ↔ flag'
  | flag, .add :: w, flag' => ¬ flag ∧ Reads True w flag'
  | _, .del :: w, flag' => Reads False w flag'
  | flag, .ask :: w, flag' => ¬ flag ∧ Reads False w flag'

/-- **A copy, the notices on their way to it, the flag and the number of refusals on their way
back.** Only a flag that is set and about to be refused differs from what the notices lead to. -/
def Mirror (copy : Prop) (w : List Notice) (flag : Prop) (refused : Nat) : Prop :=
  Reads copy w flag ∨ w = [] ∧ ¬ copy ∧ flag ∧ 0 < refused

variable {copy copy' flag flag' : Prop} {w v : List Notice} {r r' : Nat}

/-! ## Reading -/

theorem Reads.congr (hc : copy ↔ copy') (hf : flag ↔ flag') (h : Reads copy w flag) :
    Reads copy' w flag' := by
  obtain rfl := propext hc
  obtain rfl := propext hf
  exact h

theorem reads_append : Reads copy (w ++ v) flag ↔ ∃ mid, Reads copy w mid ∧ Reads mid v flag := by
  induction w generalizing copy with
  | nil =>
    constructor
    · exact fun h => ⟨copy, Iff.rfl, h⟩
    · rintro ⟨mid, hc, h⟩
      exact h.congr hc.symm Iff.rfl
  | cons x w ih =>
    cases x with
    | add => simp only [List.cons_append, Reads, ih, and_assoc, exists_and_left]
    | del => simp only [List.cons_append, Reads, ih]
    | ask => simp only [List.cons_append, Reads, ih, and_assoc, exists_and_left]

/-- A copy that is given up, or is not set: the rest of the notices still make sense, or the flag is
about to be refused. -/
theorem Reads.refuse (h : Reads True w flag) (hr : 0 < r) : Mirror False w flag r := by
  cases w with
  | nil => exact Or.inr ⟨rfl, not_false, h.mp trivial, hr⟩
  | cons x w =>
    cases x with
    | add => exact absurd trivial h.1
    | del => exact Or.inl h
    | ask => exact absurd trivial h.1

/-! ## What happens at the end with the flag -/

/-- **The notices follow the flag.** -/
theorem Mirror.tell (h : Mirror copy w flag r) (ht : Reads flag v flag') :
    Mirror copy (w ++ v) flag' r := by
  obtain h | ⟨rfl, hcopy, hflag, hr⟩ := h
  · exact Or.inl (reads_append.mpr ⟨flag, h, ht⟩)
  · cases v with
    | nil => exact Or.inr ⟨rfl, hcopy, ht.mp hflag, hr⟩
    | cons x v =>
      cases x with
      | add => exact absurd hflag ht.1
      | del => exact Or.inl ht
      | ask => exact absurd hflag ht.1

/-- **A refusal arrives**: at a flag that is clear it changes nothing; one that is set is cleared,
when nothing is on its way and the copy is not set. -/
theorem Mirror.refusal (h : Mirror copy w flag r)
    (hf : flag → w = [] ∧ ¬ copy) (hf' : ¬ flag') : Mirror copy w flag' r' := by
  by_cases hflag : flag
  · obtain ⟨rfl, hcopy⟩ := hf hflag
    exact Or.inl (iff_of_false hcopy hf')
  · obtain h | ⟨-, -, h, -⟩ := h
    · exact Or.inl (h.congr Iff.rfl (iff_of_false hflag hf'))
    · exact absurd h hflag

/-! ## What happens at the end with the copy -/

theorem Mirror.congr (hc : copy ↔ copy') (hr : r ≤ r') (h : Mirror copy w flag r) :
    Mirror copy' w flag r' := by
  obtain rfl := propext hc
  exact h.imp_right fun ⟨hw, hcopy, hflag, h⟩ => ⟨hw, hcopy, hflag, Nat.lt_of_lt_of_le h hr⟩

/-- An `add` meets a copy that is not set. -/
theorem Mirror.of_add (h : Mirror copy (.add :: w) flag r) : ¬ copy := by
  obtain h | ⟨h, -⟩ := h
  · exact h.1
  · cases h

/-- **An `add` is accepted.** -/
theorem Mirror.accept (h : Mirror copy (.add :: w) flag r) (hc : copy') :
    Mirror copy' w flag r' := by
  obtain h | ⟨h, -⟩ := h
  · exact Or.inl (h.2.congr (iff_of_true trivial hc) Iff.rfl)
  · cases h

/-- **An `add` is refused.** -/
theorem Mirror.refuse (h : Mirror copy (.add :: w) flag r) (hc : ¬ copy')
    (hr : 0 < r') : Mirror copy' w flag r' := by
  obtain h | ⟨h, -⟩ := h
  · exact (h.2.refuse hr).congr (iff_of_false not_false hc) (Nat.le_refl _)
  · cases h

/-- **A `del` is obeyed.** -/
theorem Mirror.clear (h : Mirror copy (.del :: w) flag r) (hc : ¬ copy') :
    Mirror copy' w flag r' := by
  obtain h | ⟨h, -⟩ := h
  · exact Or.inl (h.congr (iff_of_false not_false hc) Iff.rfl)
  · cases h

/-- **A question never meets a copy that is set.** -/
theorem Mirror.of_ask (h : Mirror copy (.ask :: w) flag r) : ¬ copy := by
  obtain h | ⟨h, -⟩ := h
  · exact h.1
  · cases h

theorem Mirror.asked (h : Mirror copy (.ask :: w) flag r) (hc : copy' ↔ copy) :
    Mirror copy' w flag r' := by
  obtain h | ⟨h, -⟩ := h
  · exact Or.inl (h.2.congr (iff_of_false not_false (hc.not.mpr h.1)) Iff.rfl)
  · cases h

/-- **A copy is given up.** -/
theorem Mirror.giveUp (h : Mirror copy w flag r) (hcopy : copy) (hc : ¬ copy')
    (hr : 0 < r') : Mirror copy' w flag r' := by
  obtain h | ⟨-, hn, -⟩ := h
  · exact ((h.congr (iff_true_intro hcopy) Iff.rfl).refuse hr).congr (iff_of_false not_false hc)
      (Nat.le_refl _)
  · exact absurd hcopy hn

/-- Questions lead to where they started. -/
theorem Reads.of_asks (h : Reads copy w flag) (hw : ∀ x ∈ w, x = .ask) : copy ↔ flag := by
  induction w generalizing copy with
  | nil => exact h
  | cons x w ih =>
    obtain rfl := hw x List.mem_cons_self
    have hflag := ih h.2 fun x hx => hw x (List.mem_cons_of_mem _ hx)
    exact (iff_false_intro h.1).trans hflag

/-- **With nothing but questions on its way the copy is right.** -/
theorem Mirror.exact (h : Mirror copy w flag 0) (hw : ∀ x ∈ w, x = .ask) : copy ↔ flag := by
  obtain h | ⟨-, -, -, h⟩ := h
  · exact h.of_asks hw
  · exact absurd h (Nat.lt_irrefl 0)

end DoubleDecker
