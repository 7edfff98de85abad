import Mathlib.Algebra.BigOperators.Group.Multiset.Basic
import Mathlib.Algebra.Order.BigOperators.Group.Multiset
import Mathlib.Algebra.Order.Group.Nat

/-!
# Library/Spread — copies that share the places left to see

Copies are on their way and are handled in any order.  One that is handled sees some places, and
others are sent instead.  `cover` says which places are left to a copy and to all that comes of it:
`Covers.run` keeps the places seen and left together, whatever the order, while the work left goes
down with each copy.
-/

namespace DoubleDecker

variable {S E C V : Type*} [DecidableEq C]

/-- What the handling of a copy does — the new state, the places seen, the copies sent instead — and
what else can happen to the state. -/
structure SpreadSystem (S E C V : Type*) where
  handle : S → C → Option (S × Multiset V × Multiset C)
  other : S → E → Option S

/-- The state, the copies on their way and the places seen so far. -/
structure Spread (S C V : Type*) where
  state : S
  flight : Multiset C
  seen : Multiset V

/-- What happens next: a copy is handled, or something else happens. -/
inductive SpreadEvent (C E : Type*) where
  | copy (c : C)
  | other (e : E)

/-- Whether a copy is handled. -/
def SpreadEvent.isCopy : SpreadEvent C E → Bool
  | .copy _ => true
  | .other _ => false

namespace Spread

variable (sys : SpreadSystem S E C V) (n : Spread S C V)

/-- What an event does. -/
def act : SpreadEvent C E → Option (Spread S C V)
  | .copy c =>
    if c ∈ n.flight then
      (sys.handle n.state c).map fun r => ⟨r.1, n.flight.erase c + r.2.2, n.seen + r.2.1⟩
    else none
  | .other e => (sys.other n.state e).map fun s => { n with state := s }

/-- The system after some events, the first one first. -/
def run (n : Spread S C V) : List (SpreadEvent C E) → Option (Spread S C V)
  | [] => some n
  | e :: es => (n.act sys e).bind fun n => n.run es

/-- Everything else that happens meets a condition. -/
def meets (cond : S → E → Prop) (n : Spread S C V) : List (SpreadEvent C E) → Prop
  | [] => True
  | e :: es => (∀ x, e = .other x → cond n.state x) ∧ ∀ n' ∈ n.act sys e, n'.meets cond es

variable (cover : C → Multiset V) (weight : C → ℕ) (P : C → Prop) (places : Multiset V) (bound : ℕ)

/-- **The places seen and those left to the copies are the places there are**, and the copies
handled so far and the work left are no more than a bound. -/
structure Covers (handled : ℕ) : Prop where
  places : n.seen + (n.flight.map cover).sum = places
  work : handled + (n.flight.map weight).sum ≤ bound
  all : ∀ c ∈ n.flight, P c

variable {sys n cover weight P places bound} {handled : ℕ} {n' : Spread S C V}

/-- A copy that is handled. -/
theorem act_copy_eq_some {c : C} (h : n.act sys (.copy c) = some n') : c ∈ n.flight ∧
    ∃ s here answers, sys.handle n.state c = some (s, here, answers) ∧
      n' = ⟨s, n.flight.erase c + answers, n.seen + here⟩ := by
  simp only [act] at h
  split at h
  · next hc =>
    obtain ⟨⟨s, here, answers⟩, hs, rfl⟩ := Option.map_eq_some_iff.mp h
    exact ⟨hc, s, here, answers, hs, rfl⟩
  · cases h

/-- **A copy is handled**: what was left to it is what it sees and what is left to its answers. -/
theorem Covers.handle (h : n.Covers cover weight P places bound handled) {c : C} (hc : c ∈ n.flight)
    {s : S} {here : Multiset V} {answers : Multiset C}
    (hcover : cover c = here + (answers.map cover).sum)
    (hweight : (answers.map weight).sum + 1 ≤ weight c) (hall : ∀ c' ∈ answers, P c') :
    (⟨s, n.flight.erase c + answers, n.seen + here⟩ : Spread S C V).Covers cover weight P places
      bound
      (handled + 1) where
  places := by
    have hplaces := h.places
    rw [← Multiset.sum_map_erase hc, hcover] at hplaces
    rw [← hplaces, Multiset.map_add, Multiset.sum_add, add_assoc n.seen, add_assoc here,
      add_comm (Multiset.sum _)]
  work := by
    have hwork := h.work
    rw [← Multiset.sum_map_erase hc] at hwork
    rw [Multiset.map_add, Multiset.sum_add]
    omega
  all c' hc' := (Multiset.mem_add.mp hc').elim
    (fun hold => h.all c' (Multiset.mem_of_mem_erase hold))
    (hall c')

/-- **Every run covers the places** — what one handling keeps, every run keeps. -/
theorem Covers.run (inv : S → Prop) {cond : S → E → Prop}
    (hother : ∀ s e s', inv s → cond s e → sys.other s e = some s' → inv s')
    (hhandle : ∀ s c s' here answers, inv s → P c → sys.handle s c = some (s', here, answers) →
      inv s' ∧ cover c = here + (answers.map cover).sum ∧ (answers.map weight).sum + 1 ≤ weight c ∧
      ∀ c' ∈ answers, P c')
    {es : List (SpreadEvent C E)} (hinv : inv n.state)
    (h : n.Covers cover weight P places bound handled) (hmeets : n.meets sys cond es)
    (hrun : n.run sys es = some n') : inv n'.state ∧
      n'.Covers cover weight P places bound (handled + es.countP SpreadEvent.isCopy) := by
  induction es generalizing n handled with
  | nil =>
    cases hrun
    exact ⟨hinv, h⟩
  | cons e es ih =>
    obtain ⟨n₁, hact, hrest⟩ := Option.bind_eq_some_iff.mp hrun
    obtain ⟨hcond, hmeets⟩ := hmeets
    cases e with
    | copy c =>
      obtain ⟨hc, s, here, answers, hs, rfl⟩ := act_copy_eq_some hact
      obtain ⟨hinv', hcover, hweight, hall⟩ := hhandle _ c s here answers hinv (h.all c hc) hs
      rw [List.countP_cons_of_pos rfl, Nat.add_comm (es.countP _), ← Nat.add_assoc]
      exact ih hinv' (h.handle hc hcover hweight hall) (hmeets _ hact) hrest
    | other e =>
      obtain ⟨s, hs, rfl⟩ := Option.map_eq_some_iff.mp hact
      rw [List.countP_cons_of_neg Bool.false_ne_true]
      exact ih (n := { n with state := s }) (hother _ e s hinv (hcond e rfl) hs)
        ⟨h.places, h.work, h.all⟩ (hmeets _ hact) hrest

omit [DecidableEq C] in
/-- **No place is seen more often than it is there.** -/
theorem Covers.seen_le (h : n.Covers cover weight P places bound handled) : n.seen ≤ places :=
  h.places ▸ Multiset.le_add_right _ _

omit [DecidableEq C] in
/-- **With no copy on its way every place was seen.** -/
theorem Covers.seen_eq (h : n.Covers cover weight P places bound handled) (hnone : n.flight = 0) :
    n.seen = places := by
  have hplaces := h.places
  rwa [hnone, Multiset.map_zero, Multiset.sum_zero, add_zero] at hplaces

omit [DecidableEq C] in
/-- **The copies come to an end.** -/
theorem Covers.card_le (h : n.Covers cover weight P places bound handled)
    (hpos : ∀ c, P c → 1 ≤ weight c) : handled + n.flight.card ≤ bound := by
  have hcard : n.flight.card ≤ (n.flight.map weight).sum := by
    have hle : ∀ w ∈ n.flight.map weight, 1 ≤ w := fun w hw => by
      obtain ⟨c, hc, rfl⟩ := Multiset.mem_map.mp hw
      exact hpos c (h.all c hc)
    simpa using Multiset.card_nsmul_le_sum hle
  exact (Nat.add_le_add_left hcard _).trans h.work

end Spread

end DoubleDecker
