import Mathlib.Data.List.Basic

/-!
# Library/Zlistx — a list with a cursor

The doubly linked list of CZMQ with the cursor its iteration uses.  The cursor is at the head of the
list, before the first item, or on an item; iteration that has come to the end is at the head again.
-/

namespace DoubleDecker

variable {α : Type*}

/-- A list and its cursor: 0 for the head, `i + 1` for the item `i`. -/
structure Zlistx (α : Type*) where
  items : List α
  cursor : Nat
  cursor_le : cursor ≤ items.length

namespace Zlistx

/-- `zlistx_new`. -/
def empty : Zlistx α := ⟨[], 0, Nat.zero_le _⟩

/-- A list with the cursor at its head. -/
def ofItems (items : List α) : Zlistx α := ⟨items, 0, Nat.zero_le _⟩

/-- `zlistx_next`: the item after the cursor, or the end, from where the next call starts over. -/
def next (l : Zlistx α) : Option α × Zlistx α :=
  if h : l.cursor < l.items.length then
    (some l.items[l.cursor], { l with cursor := l.cursor + 1, cursor_le := h })
  else (none, { l with cursor := 0, cursor_le := Nat.zero_le _ })

/-- The items a loop over `zlistx_next` visits. -/
def rest (l : Zlistx α) : List α := l.items.drop l.cursor

/-- The items a loop over `zlistx_next` does not visit. -/
def skipped (l : Zlistx α) : List α := l.items.take l.cursor

/-- A loop over `zlistx_next` that changes the items it visits: it runs from the cursor to the end
and leaves the cursor at the head. -/
def pass (f : α → α) (l : Zlistx α) : Zlistx α := ofItems (l.items.take l.cursor ++ l.rest.map f)

/-- `zlistx_find`: the cursor is on the first item that matches, if there is one. -/
def find (p : α → Bool) (l : Zlistx α) : Option Nat × Zlistx α :=
  if h : l.items.findIdx p < l.items.length then
    (some (l.items.findIdx p), { l with cursor := l.items.findIdx p + 1, cursor_le := h })
  else (none, l)

/-- `zlistx_delete`: a cursor on the item moves to the one before it. -/
def delete (i : Nat) (l : Zlistx α) : Zlistx α :=
  if h : i < l.items.length then
    { items := l.items.eraseIdx i
      cursor := if i < l.cursor then l.cursor - 1 else l.cursor
      cursor_le := by
        have := l.cursor_le
        rw [List.length_eraseIdx_of_lt h]
        split <;> omega }
  else l

/-- `zlistx_add_start`: the cursor stays where it is. -/
def addStart (a : α) (l : Zlistx α) : Zlistx α :=
  { items := a :: l.items
    cursor := if l.cursor = 0 then 0 else l.cursor + 1
    cursor_le := by
      have := l.cursor_le
      rw [List.length_cons]
      split <;> omega }

/-- A change of the item the cursor is on. -/
def set (a : α) (l : Zlistx α) : Zlistx α :=
  { l with items := l.items.set (l.cursor - 1) a
           cursor_le := by rw [List.length_set]; exact l.cursor_le }

/-! ## Loops -/

/-- **A pass is a loop** — it ends where `zlistx_next` finds no item, and else changes the item it
finds and goes on. -/
theorem pass_eq (f : α → α) (l : Zlistx α) : l.pass f =
    match l.next with
    | (none, l') => l'
    | (some a, l') => (l'.set (f a)).pass f := by
  by_cases h : l.cursor < l.items.length
  · simp only [next, dif_pos h, pass, rest, set, Nat.add_sub_cancel]
    rw [List.drop_eq_getElem_cons h, List.map_cons, List.drop_set_of_lt (Nat.lt_succ_self _),
      List.take_succ_eq_append_getElem (by rwa [List.length_set]),
      List.take_set_of_le (Nat.le_refl _), List.getElem_set_self, List.append_assoc]
    rfl
  · have hend := Nat.le_of_not_lt h
    simp only [next, dif_neg h, pass, rest, List.drop_eq_nil_of_le hend,
      List.take_of_length_le hend, List.map_nil, List.append_nil]
    rfl

/-- From the head a loop visits every item. -/
theorem rest_of_head {l : Zlistx α} (h : l.cursor = 0) : l.rest = l.items := by
  rw [rest, h, List.drop_zero]

theorem pass_of_head (f : α → α) {l : Zlistx α} (h : l.cursor = 0) :
    l.pass f = ofItems (l.items.map f) := by
  rw [pass, rest_of_head h, h, List.take_zero, List.nil_append]

theorem skipped_append_rest (l : Zlistx α) : l.skipped ++ l.rest = l.items :=
  List.take_append_drop _ _

theorem items_pass (f : α → α) (l : Zlistx α) : (l.pass f).items = l.skipped ++ l.rest.map f := rfl

/-- A pass that leaves something alone leaves it alone in the whole list. -/
theorem map_items_pass {β : Type*} {f : α → α} {g : α → β} (h : ∀ a, g (f a) = g a) (l : Zlistx α) :
    (l.pass f).items.map g = l.items.map g := by
  rw [items_pass, List.map_append, List.map_map, ← l.skipped_append_rest, List.map_append]
  exact congrArg _ (List.map_congr_left fun a _ => h a)

/-- Only a loop from the head visits every item. -/
theorem rest_eq_items_iff {l : Zlistx α} : l.rest = l.items ↔ l.cursor = 0 := by
  refine ⟨fun h => ?_, rest_of_head⟩
  have hlen := congrArg List.length h
  rw [rest, List.length_drop] at hlen
  have := l.cursor_le
  omega

/-! ## Search and removal -/

/-- Nothing is found. -/
theorem find_of_none {p : α → Bool} {l : Zlistx α} (h : ∀ a ∈ l.items, p a = false) :
    l.find p = (none, l) := by
  have hend : l.items.findIdx p = l.items.length := List.findIdx_eq_length.mpr h
  rw [find, dif_neg (by omega)]

/-- **The first item that matches is removed**, and the cursor is left before its place. -/
theorem delete_find {p : α → Bool} {l : Zlistx α} {u v : List α} {a : α}
    (hitems : l.items = u ++ a :: v) (hu : ∀ x ∈ u, p x = false) (ha : p a = true) :
    ∃ l', l.find p = (some u.length, l') ∧ (l'.delete u.length).items = u ++ v ∧
      (l'.delete u.length).cursor = u.length := by
  have hidx : l.items.findIdx p = u.length := by
    rw [hitems, List.findIdx_append, List.findIdx_eq_length.mpr hu, List.findIdx_cons, ha]
    simp
  have hlt : u.length < l.items.length := by rw [hitems]; simp
  refine ⟨_, by rw [find, dif_pos (hidx ▸ hlt)]; simp only [hidx]; rfl, ?_, ?_⟩
  · rw [delete, dif_pos hlt]
    show l.items.eraseIdx u.length = u ++ v
    rw [hitems, List.eraseIdx_append_of_length_le (Nat.le_refl _)]
    simp
  · rw [delete, dif_pos hlt]
    simp

end Zlistx

end DoubleDecker
