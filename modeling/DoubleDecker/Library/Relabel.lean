import DoubleDecker.Library.Lfht
import Mathlib.Data.Set.Function

/-!
# Library/Relabel — a hash table and the table of its keys

    k ──▸ hash k          t : Lfht K α  ──▸  t.relabel hash : Lfht H α

`relabel` replaces every key of a table by its hash.  On a set of keys without collisions, which has
the keys of the table and the one asked for, every operation does to the table of hashes what it
does to the table of keys.
-/

namespace DoubleDecker.Lfht

variable {H K α : Type} {hash : K → H} {S : Set K} {t : Lfht K α} {k : K}

/-- The same nodes, under the hashes of their keys. -/
def relabel (hash : K → H) (t : Lfht K α) : Lfht H α := t.map fun e => (hash e.1, e.2)

/-- The keys of the table are in the set. -/
def Within (t : Lfht K α) (S : Set K) : Prop := ∀ e ∈ t, e.1 ∈ S

@[simp] theorem relabel_nil : relabel hash ([] : Lfht K α) = [] := rfl

@[simp] theorem nodes_relabel (hash : K → H) (t : Lfht K α) : (t.relabel hash).nodes = t.nodes := by
  rw [nodes, relabel, List.map_map]
  rfl

theorem relabel_add (a : α) : (t.add k a).relabel hash = (t.relabel hash).add (hash k) a := by
  rw [relabel, add, List.map_append]
  rfl

theorem relabel_filter (p : α → Bool) :
    relabel hash (t.filter fun e => p e.2) = (t.relabel hash).filter fun e => p e.2 := by
  rw [relabel, relabel, List.filter_map]
  rfl

theorem Within.add (ht : t.Within S) (hk : k ∈ S) (a : α) : (t.add k a).Within S := fun e he => by
  obtain he | he := List.mem_append.mp he
  · exact ht e he
  · rw [List.mem_singleton.mp he]
    exact hk

theorem Within.filter (ht : t.Within S) (p : K × α → Bool) : Within (t.filter p) S :=
  fun e he => ht e (List.mem_of_mem_filter he)

variable [DecidableEq H] [DecidableEq K]

theorem Within.del (ht : t.Within S) (k : K) (m : α → Option Bool) : (t.del k m).Within S :=
  fun e he => ht e (List.mem_of_mem_eraseP he)

theorem Within.modify (ht : t.Within S) (k : K) (m : α → Option Bool) (f : α → α) :
    (t.modify k m f).Within S := by
  induction t with
  | nil => exact ht
  | cons e t ih =>
    obtain ⟨he, ht⟩ := List.forall_mem_cons.mp ht
    rw [Lfht.modify]
    split_ifs
    · exact List.forall_mem_cons.mpr ⟨he, ht⟩
    · exact List.forall_mem_cons.mpr ⟨he, ih ht⟩

/-- **A lookup among hashes** finds what the lookup among keys finds. -/
theorem lookup_relabel (hinj : Set.InjOn hash S) (ht : t.Within S) (hk : k ∈ S)
    (m : α → Option Bool) : (t.relabel hash).lookup (hash k) m = t.lookup k m := by
  induction t with
  | nil => rfl
  | cons e t ih =>
    obtain ⟨he, ht⟩ := List.forall_mem_cons.mp ht
    rw [relabel, List.map_cons, lookup, lookup, ← relabel, ih ht]
    simp only [hinj.eq_iff he hk]

theorem del_relabel (hinj : Set.InjOn hash S) (ht : t.Within S) (hk : k ∈ S)
    (m : α → Option Bool) : (t.relabel hash).del (hash k) m = (t.del k m).relabel hash := by
  induction t with
  | nil => rfl
  | cons e t ih =>
    obtain ⟨he, ht⟩ := List.forall_mem_cons.mp ht
    have ih := ih ht
    rw [del, del, relabel, relabel] at ih
    rw [del, del, relabel, relabel, List.map_cons, List.eraseP_cons, List.eraseP_cons]
    simp only [hinj.eq_iff he hk, ih]
    cases decide (e.1 = k) && m e.2 == some true <;> rfl

theorem modify_relabel (hinj : Set.InjOn hash S) (ht : t.Within S) (hk : k ∈ S)
    (m : α → Option Bool) (f : α → α) :
    (t.relabel hash).modify (hash k) m f = (t.modify k m f).relabel hash := by
  induction t with
  | nil => rfl
  | cons e t ih =>
    obtain ⟨he, ht⟩ := List.forall_mem_cons.mp ht
    rw [relabel, List.map_cons, modify, modify, ← relabel, ih ht]
    simp only [hinj.eq_iff he hk]
    split <;> rfl

end DoubleDecker.Lfht
