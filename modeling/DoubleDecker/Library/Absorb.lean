import Mathlib.Algebra.GroupWithZero.Nat
import Mathlib.Data.List.Basic

/-!
# Library/Absorb — input taken in blocks of one size

    input  ──▸  block │ block │ … │ block │ rest          |block| = n,  |rest| < n

Each full block goes through one round; what is left waits in a buffer for more input, and the input
may be cut anywhere (`blocks_append`).
-/

namespace DoubleDecker.Absorb

variable {σ α : Type*}

/-- The rounds over the full blocks of an input, and what is left of it. -/
def blocks (n : ℕ) [NeZero n] (round : σ → List α → σ) (s : σ) (l : List α) : σ × List α :=
  if _h : n ≤ l.length then blocks n round (round s (l.take n)) (l.drop n) else (s, l)
termination_by l.length
decreasing_by
  have hn := Nat.pos_of_neZero n
  rw [List.length_drop]
  omega

variable {n : ℕ} [NeZero n] {round : σ → List α → σ}

theorem blocks_of_lt (s : σ) {l : List α} (h : l.length < n) : blocks n round s l = (s, l) := by
  rw [blocks, dif_neg (Nat.not_le.mpr h)]

theorem blocks_of_le (s : σ) {l : List α} (h : n ≤ l.length) :
    blocks n round s l = blocks n round (round s (l.take n)) (l.drop n) := by
  rw [blocks, dif_pos h]

/-- A block in front of the input. -/
theorem blocks_block_append (s : σ) {block : List α} (h : block.length = n) (l : List α) :
    blocks n round s (block ++ l) = blocks n round (round s block) l := by
  rw [blocks_of_le s (by rw [List.length_append]; omega), List.take_left' h, List.drop_left' h]

/-- **More input** goes on where the blocks of the input before it ended. -/
theorem blocks_append (s : σ) (l m : List α) :
    blocks n round s (l ++ m) = blocks n round (blocks n round s l).1
    ((blocks n round s l).2 ++ m) := by
  induction s, l using blocks.induct n round with
  | case1 s l h ih =>
    rw [blocks_of_le s h, ← ih, blocks_of_le s (by rw [List.length_append]; omega),
      List.take_append_of_le_length h, List.drop_append_of_le_length h]
  | case2 s l h => rw [blocks_of_lt s (Nat.not_le.mp h)]

/-- What is left is shorter than a block. -/
theorem length_blocks (s : σ) (l : List α) : (blocks n round s l).2.length = l.length % n := by
  induction s, l using blocks.induct n round with
  | case1 s l h ih => rw [blocks_of_le s h, ih, List.length_drop, ← Nat.mod_eq_sub_mod h]
  | case2 s l h => rw [blocks_of_lt s (Nat.not_le.mp h), Nat.mod_eq_of_lt (Nat.not_le.mp h)]

end DoubleDecker.Absorb
