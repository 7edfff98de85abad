import Mathlib.Data.List.Basic

/-!
# Library/Stops — loops that stop early

`stop` reads off a computation in `Except` the error it ended with, if any.  A loop over a list
whose body stops at an item for reasons of that item only ends at the first such item
(`stop_foldlM`).
-/

namespace DoubleDecker

universe u v w

variable {ε : Type u} {α : Type v} {β γ : Type w}

/-- The error a computation ended with. -/
def stop : Except ε α → Option ε
  | .error e => some e
  | .ok _ => none

@[simp] theorem stop_error (e : ε) : stop (.error e : Except ε α) = some e := rfl

@[simp] theorem stop_throw (e : ε) : stop (throw e : Except ε α) = some e := rfl

@[simp] theorem stop_ok (a : α) : stop (.ok a : Except ε α) = none := rfl

@[simp] theorem stop_pure (a : α) : stop (pure a : Except ε α) = none := rfl

/-- **Two computations, one after the other**: the second is reached when the first did not stop. -/
theorem stop_bind {x : Except ε β} {f : β → Except ε γ} {r : Option ε}
    (h : ∀ a, x = .ok a → stop (f a) = r) : stop (x >>= f) = (stop x).or r := by
  cases x with
  | error e => rfl
  | ok a => exact h a rfl

/-- The two computations of a sequence that did not stop. -/
theorem bind_eq_ok {x : Except ε β} {f : β → Except ε γ} {c : γ} (h : x >>= f = .ok c) :
    ∃ a, x = .ok a ∧ f a = .ok c := by
  cases x with
  | error e => cases h
  | ok a => exact ⟨a, rfl, h⟩

/-- **A loop stops at its first bad item**, when what an item does depends on the state only as far
as the loop keeps it (`P`). -/
theorem stop_foldlM {P : β → Prop} {v : α → Option ε} {body : β → α → Except ε β}
    (hstop : ∀ b a, P b → stop (body b a) = v a)
    (hkeep : ∀ b a b', P b → body b a = .ok b' → P b') :
    ∀ (l : List α) (b : β), P b → stop (l.foldlM body b) = l.findSome? v
  | [], _, _ => rfl
  | a :: l, b, hb => by
    rw [List.foldlM_cons, List.findSome?_cons,
      stop_bind fun b' hb' => stop_foldlM hstop hkeep l b' (hkeep b a b' hb hb'), hstop b a hb]
    cases v a <;> rfl

/-- What is true of the items gone through and the state, after each pass, is true at the end. -/
theorem foldlM_trail {I : List α → β → Prop} {body : β → α → Except ε β}
    (hkeep : ∀ before a b b', I before b → body b a = .ok b' → I (before ++ [a]) b') :
    ∀ {l : List α} (before : List α) {b b' : β}, I before b → l.foldlM body b = .ok b' →
      I (before ++ l) b'
  | [], before, _, _, hb, h => by
    cases h
    rwa [List.append_nil]
  | a :: l, before, b, b', hb, h => by
    rw [List.foldlM_cons] at h
    obtain ⟨c, hc, h⟩ := bind_eq_ok h
    rw [List.append_cons]
    exact foldlM_trail hkeep (before ++ [a]) (hkeep before a b c hb hc) h

/-- **A loop whose state is a function of the items gone through**, and that does not stop at
any. -/
theorem foldlM_eq_ok {body : β → α → Except ε β} (state : List α → β) :
    ∀ {l : List α} (before : List α),
      (∀ seen a after, l = seen ++ a :: after →
        body (state (before ++ seen)) a = .ok (state (before ++ seen ++ [a]))) →
      l.foldlM body (state before) = .ok (state (before ++ l))
  | [], before, _ => by rw [List.append_nil]; rfl
  | a :: l, before, h => by
    have hfirst := h [] a l rfl
    rw [List.append_nil] at hfirst
    have hrest := foldlM_eq_ok state (l := l) (before ++ [a]) fun seen b after hl => by
      have hb := h (a :: seen) b after (by rw [hl, List.cons_append])
      rwa [List.append_cons] at hb
    rw [← List.append_cons] at hrest
    rw [List.foldlM_cons, hfirst]
    exact hrest

end DoubleDecker
