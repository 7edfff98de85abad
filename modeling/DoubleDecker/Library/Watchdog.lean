/-!
# Library/Watchdog — counters that are renewed

    renewed ──▸ 0 ──tick──▸ 1 ──tick──▸ ⋯ ──tick──▸ limit ──tick──▸ gone

What is present has an age.  A step renews it, is a tick for it, or leaves it alone; what comes is
new, and the tick after `limit` takes it away.  Then in every run the age is the number of ticks
since the last renewal (`Trace.age_eq`), and nothing goes but at the tick after `limit` of them
(`Trace.gone_iff`).
-/

namespace DoubleDecker

/-- What a step is for a counter. -/
inductive Beat where
  | renew
  | tick
  | rest
  deriving DecidableEq

/-- The age after a step. -/
def Beat.after : Beat → Nat → Nat
  | .renew, _ => 0
  | .tick, n => n + 1
  | .rest, n => n

/-- **The ticks since the last renewal**, the last step first. -/
def ticks : List Beat → Nat
  | [] => 0
  | b :: bs => b.after (ticks bs)

/-- **A system of counters** over states, events and what is counted. -/
structure Watchdog (S E ι : Type) where
  step : S → E → S → Prop
  present : S → ι → Prop
  age : S → ι → Nat
  beat : S → E → ι → Beat
  limit : Nat
  comes : ∀ {s e s' i}, step s e s' → present s' i → ¬ present s i → beat s e i = .renew
  goes : ∀ {s e s' i}, step s e s' → present s i →
    (¬ present s' i ↔ beat s e i = .tick ∧ limit ≤ age s i)
  age_after : ∀ {s e s' i}, step s e s' → present s' i → age s' i = (beat s e i).after (age s i)

namespace Watchdog

variable {S E ι : Type} (w : Watchdog S E ι)

/-- The steps from a state where nothing is present, the last one first, and where they lead. -/
inductive Trace : List (S × E) → S → Prop
  | init {s : S} : (∀ i, ¬ w.present s i) → Trace [] s
  | snoc {l : List (S × E)} {s s' : S} {e : E} :
      Trace l s → w.step s e s' → Trace ((s, e) :: l) s'

/-- What the steps were for one counter. -/
def beats (l : List (S × E)) (i : ι) : List Beat := l.map fun p => w.beat p.1 p.2 i

variable {w} {l : List (S × E)} {s s' : S} {e : E} {i : ι}

/-- **The age is the number of ticks since the last renewal**, and never above the limit. -/
theorem Trace.age_eq (h : w.Trace l s) (hi : w.present s i) :
    w.age s i = ticks (w.beats l i) ∧ w.age s i ≤ w.limit := by
  induction h with
  | init hnone => exact absurd hi (hnone i)
  | @snoc l s s' e h hs ih =>
    rw [w.age_after hs hi]
    show (w.beat s e i).after (w.age s i) = (w.beat s e i).after (ticks (w.beats l i)) ∧ _
    by_cases hold : w.present s i
    · obtain ⟨hage, hle⟩ := ih hold
      rw [← hage]
      refine ⟨rfl, ?_⟩
      cases hb : w.beat s e i with
      | renew => exact Nat.zero_le _
      | rest => exact hle
      | tick =>
        by_cases hlt : w.age s i < w.limit
        · exact hlt
        · exact absurd hi ((w.goes hs hold).mpr ⟨hb, Nat.le_of_not_lt hlt⟩)
    · rw [w.comes hs hi hold]
      exact ⟨rfl, Nat.zero_le _⟩

/-- **What goes, goes at the tick after `limit` others**, and does go there. -/
theorem Trace.gone_iff (h : w.Trace l s) (hs : w.step s e s') (hi : w.present s i) :
    ¬ w.present s' i ↔ w.beat s e i = .tick ∧ ticks (w.beats l i) = w.limit := by
  obtain ⟨hage, hle⟩ := h.age_eq hi
  rw [w.goes hs hi, ← hage]
  exact and_congr_right fun _ =>
    ⟨fun hge => Nat.le_antisymm hle hge, fun heq => heq ▸ Nat.le_refl _⟩
end Watchdog

end DoubleDecker
