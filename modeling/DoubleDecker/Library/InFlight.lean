import Mathlib.Data.List.Basic

/-!
# Library/InFlight — operations on their way to a follower

A leader applies each operation at once and sends it to a follower, which gets the operations in
order.  `Lags ops follower leader`: when the operations in flight have arrived, the follower is
where the leader is, and none of them meets a state it must not meet (`guard`).
-/

namespace DoubleDecker

variable {Op S : Type*} (apply : Op → S → S) (guard : Op → S → Prop)

/-- The state after the operations. -/
def replay : List Op → S → S
  | [], s => s
  | op :: ops, s => replay ops (apply op s)

/-- Every operation meets its guard. -/
def Guarded : List Op → S → Prop
  | [], _ => True
  | op :: ops, s => guard op s ∧ Guarded ops (apply op s)

theorem replay_append (ops ops' : List Op) (s : S) :
    replay apply (ops ++ ops') s = replay apply ops' (replay apply ops s) := by
  induction ops generalizing s with
  | nil => rfl
  | cons op ops ih => exact ih (apply op s)

theorem guarded_append (ops ops' : List Op) (s : S) : Guarded apply guard (ops ++ ops') s ↔
    Guarded apply guard ops s ∧ Guarded apply guard ops' (replay apply ops s) := by
  induction ops generalizing s with
  | nil => simp [Guarded, replay]
  | cons op ops ih => simp only [List.cons_append, Guarded, ih, replay, and_assoc]

/-- **A follower that lags behind its leader** by the operations in flight. -/
structure Lags (ops : List Op) (follower leader : S) : Prop where
  arrives : replay apply ops follower = leader
  guarded : Guarded apply guard ops follower

variable {apply guard} {ops : List Op} {op : Op} {follower leader : S}

/-- Nothing is in flight at the start. -/
theorem lags_nil (s : S) : Lags apply guard [] s s := ⟨rfl, trivial⟩

/-- **The leader applies an operation and sends it.** -/
theorem Lags.send (h : Lags apply guard ops follower leader) (hop : guard op leader) :
    Lags apply guard (ops ++ [op]) follower (apply op leader) where
  arrives := by
    rw [replay_append, h.arrives]
    rfl
  guarded := (guarded_append apply guard _ _ _).mpr ⟨h.guarded, h.arrives.symm ▸ hop, trivial⟩

/-- **The follower gets the next operation.** -/
theorem Lags.receive (h : Lags apply guard (op :: ops) follower leader) :
    guard op follower ∧ Lags apply guard ops (apply op follower) leader :=
  ⟨h.guarded.1, h.arrives, h.guarded.2⟩

/-- **With nothing in flight the two are the same.** -/
theorem Lags.eq_of_nil (h : Lags apply guard [] follower leader) : follower = leader := h.arrives

end DoubleDecker
