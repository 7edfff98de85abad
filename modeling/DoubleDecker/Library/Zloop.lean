import Mathlib.Data.List.Nodup

/-!
# Library/Zloop — the timers of a reactor

`zloop_timer` starts a timer and returns its id, `zloop_timer_end` ends the timer of an id.  An id
is used once, so ending a timer by its id leaves the others as they are.
-/

namespace DoubleDecker

/-- The timers of a `zloop_t`, each with its id and what it runs, and the last id. -/
structure Zloop (α : Type*) where
  timers : List (Nat × α)
  lastTimerId : Nat
  id_le : ∀ timer ∈ timers, timer.1 ≤ lastTimerId
  nodup : (timers.map Prod.fst).Nodup

namespace Zloop

variable {α : Type*} (l : Zloop α)

/-- `zloop_new`. -/
def empty : Zloop α := ⟨[], 0, fun _ h => absurd h List.not_mem_nil, List.nodup_nil⟩

/-- The id of the next timer. -/
def nextTimerId : Nat := l.lastTimerId + 1

/-- `zloop_timer`; the timer gets the next id. -/
def timer (fn : α) : Zloop α where
  timers := l.timers ++ [(l.nextTimerId, fn)]
  lastTimerId := l.nextTimerId
  id_le := fun timer h => by
    obtain h | h := List.mem_append.mp h
    · exact Nat.le_succ_of_le (l.id_le timer h)
    · exact Nat.le_of_eq (congrArg Prod.fst (List.mem_singleton.mp h))
  nodup := by
    rw [List.map_append, List.map_singleton, List.nodup_append]
    refine ⟨l.nodup, List.nodup_singleton _, fun id h id' h' => ?_⟩
    obtain ⟨timer, htimer, rfl⟩ := List.mem_map.mp h
    rw [List.mem_singleton.mp h']
    exact Nat.ne_of_lt (Nat.lt_succ_of_le (l.id_le timer htimer))

/-- Whether a timer runs this. -/
def runs [DecidableEq α] (fn : α) : Bool := l.timers.any fun timer => timer.2 = fn

/-- `zloop_timer_end`. -/
def timerEnd (timerId : Nat) : Zloop α where
  timers := l.timers.filter fun timer => timer.1 ≠ timerId
  lastTimerId := l.lastTimerId
  id_le := fun timer h => l.id_le timer (List.mem_of_mem_filter h)
  nodup := l.nodup.sublist (List.filter_sublist.map _)

variable {l} {rest : List (Nat × α)} {timer : Nat × α}

theorem runs_eq_true [DecidableEq α] {fn : α} : l.runs fn = true ↔ ∃ id, (id, fn) ∈ l.timers := by
  rw [runs, List.any_eq_true]
  constructor
  · rintro ⟨⟨id, _⟩, hmem, hfn⟩
    exact ⟨id, of_decide_eq_true hfn ▸ hmem⟩
  · rintro ⟨id, hmem⟩
    exact ⟨_, hmem, decide_eq_true rfl⟩

theorem mem_timers_timer {fn : α} :
    timer ∈ (l.timer fn).timers ↔ timer ∈ l.timers ∨ timer = (l.nextTimerId, fn) := by
  rw [Zloop.timer, List.mem_append, List.mem_singleton]

theorem mem_timers_timerEnd {timerId : Nat} :
    timer ∈ (l.timerEnd timerId).timers ↔ timer ∈ l.timers ∧ timer.1 ≠ timerId := by
  rw [timerEnd, List.mem_filter, decide_eq_true_iff]

/-- **A timer is started.** -/
theorem timers_timer (h : l.timers.Perm rest) (fn : α) :
    (l.timer fn).timers.Perm ((l.nextTimerId, fn) :: rest) :=
  (List.perm_append_singleton _ _).trans (h.cons _)

/-- **A timer is ended**, and no other. -/
theorem timers_timerEnd (h : l.timers.Perm (timer :: rest)) :
    (l.timerEnd timer.1).timers.Perm rest := by
  have hfilter := h.filter fun t => t.1 ≠ timer.1
  have hnodup := (h.map Prod.fst).nodup_iff.mp l.nodup
  rw [List.map_cons, List.nodup_cons] at hnodup
  have hothers : ∀ t ∈ rest, decide (t.1 ≠ timer.1) = true := fun t ht =>
    decide_eq_true fun heq => hnodup.1 (heq ▸ List.mem_map_of_mem ht)
  rwa [List.filter_cons_of_neg (by simp), List.filter_eq_self.mpr hothers] at hfilter

/-- **One timer takes the place of another.** -/
theorem timers_replace (h : l.timers.Perm (timer :: rest)) (fn : α) :
    ((l.timer fn).timerEnd timer.1).timers.Perm ((l.nextTimerId, fn) :: rest) :=
  timers_timerEnd ((timers_timer h fn).trans (.swap timer _ _))

end Zloop

end DoubleDecker
