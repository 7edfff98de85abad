import Mathlib.Data.List.Basic

/-!
# Library/Transducer — machines that read and write

    α* ──encoder──▸ β* ──decoder──▸ α*

A transducer writes some letters for each letter it reads.  Of two of them the second undoes the
first when, letter by letter, what it writes and what it still holds back is what the first has read
(`Undoes.run`).
-/

namespace DoubleDecker

universe u v w

/-- What a machine writes for a letter, and its next state. -/
structure Transducer (σ : Type u) (α : Type v) (β : Type w) where
  step : σ → α → List β × σ

namespace Transducer

variable {σ α β τ : Type*}

/-- What is written for a list of letters, and the state after it. -/
def run (T : Transducer σ α β) (s : σ) : List α → List β × σ
  | [] => ([], s)
  | a :: l => ((T.step s a).1 ++ (T.run (T.step s a).2 l).1, (T.run (T.step s a).2 l).2)

@[simp] theorem run_nil (T : Transducer σ α β) (s : σ) : T.run s [] = ([], s) := rfl

@[simp] theorem run_cons (T : Transducer σ α β) (s : σ) (a : α) (l : List α) :
    T.run s (a :: l) =
      ((T.step s a).1 ++ (T.run (T.step s a).2 l).1, (T.run (T.step s a).2 l).2) := rfl

/-- **More letters** are read from the state the letters before them left. -/
theorem run_append (T : Transducer σ α β) (s : σ) (l m : List α) :
    T.run s (l ++ m) = ((T.run s l).1 ++ (T.run (T.run s l).2 m).1, (T.run (T.run s l).2 m).2) := by
  induction l generalizing s with
  | nil => rfl
  | cons a l ih => rw [List.cons_append, run_cons, ih, run_cons, List.append_assoc]

/-- **The decoder undoes the encoder.**  `Held s t h` relates their states and the letters that were
read and are not yet back. -/
structure Undoes (E : Transducer σ α β) (D : Transducer τ β α) (Held : σ → τ → List α → Prop) :
    Prop where
  step : ∀ {s t h} (a : α), Held s t h →
    ∃ h', Held (E.step s a).2 (D.run t (E.step s a).1).2 h' ∧
      (D.run t (E.step s a).1).1 ++ h' = h ++ [a]

/-- **A whole text comes back**, but for what is held. -/
theorem Undoes.run {E : Transducer σ α β} {D : Transducer τ β α} {Held : σ → τ → List α → Prop}
    (hstep : Undoes E D Held) (l : List α) : ∀ {s : σ} {t : τ} {h : List α}, Held s t h →
      ∃ h', Held (E.run s l).2 (D.run t (E.run s l).1).2 h' ∧
        (D.run t (E.run s l).1).1 ++ h' = h ++ l := by
  induction l with
  | nil =>
    intro s t h hh
    exact ⟨h, hh, by simp⟩
  | cons a l ih =>
    intro s t h hh
    obtain ⟨h₁, hh₁, hout₁⟩ := hstep.step a hh
    obtain ⟨h₂, hh₂, hout₂⟩ := ih hh₁
    refine ⟨h₂, ?_, ?_⟩
    · rw [run_cons, run_append]
      exact hh₂
    · rw [run_cons, run_append]
      simp only [List.append_assoc]
      rw [hout₂, ← List.append_assoc, hout₁, List.append_assoc, List.singleton_append]

end Transducer

end DoubleDecker
