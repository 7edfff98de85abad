import Mathlib.Data.List.Basic
import Mathlib.Data.List.Infix
import Mathlib.Data.List.TakeWhile

/-!
# Library/CString — NUL-terminated strings

A `CStr` is the bytes before the terminating `NUL`, so that no byte of it is `NUL`.  The functions
are those of `string.h` that the broker calls; `snprintf` into a buffer of `n` bytes is
`CStr.truncate (n - 1)` of what it would have printed.
-/

namespace DoubleDecker

/-- A C string. -/
@[ext] structure CStr where
  bytes : List UInt8
  nul_free : 0 ∉ bytes
  deriving DecidableEq

namespace CStr

/-- The bytes of a literal. -/
def ascii (s : String) : List UInt8 := s.toList.map fun c => UInt8.ofNat c.toNat

/-- A memory area read as a string: it ends at its first `NUL`. -/
def ofBytes (l : List UInt8) : CStr :=
  ⟨l.takeWhile (· != 0), fun h => by simpa using List.mem_takeWhile_imp h⟩

instance : EmptyCollection CStr := ⟨⟨[], List.not_mem_nil⟩⟩

/-- Concatenation, as `snprintf("%s%s")` prints it. -/
instance : Append CStr :=
  ⟨fun a b => ⟨a.bytes ++ b.bytes, by simp [a.nul_free, b.nul_free]⟩⟩

/-- What is left of a string printed into a buffer of `n + 1` bytes. -/
def truncate (n : Nat) (s : CStr) : CStr :=
  ⟨s.bytes.take n, fun h => s.nul_free (List.mem_of_mem_take h)⟩

/-- `strlen`. -/
def length (s : CStr) : Nat := s.bytes.length

/-- `strncmp(s, p, strlen(p)) == 0`. -/
def startsWith (s p : CStr) : Bool := p.bytes.isPrefixOf s.bytes

/-- The string up to the first `c`, the whole string when there is none. -/
def before (c : UInt8) (s : CStr) : CStr :=
  ⟨s.bytes.takeWhile (· != c), fun h => s.nul_free ((List.takeWhile_sublist _).subset h)⟩

/-- `strchr(s, c) + 1`; `none` when `strchr` returns `NULL`. -/
def after (c : UInt8) (s : CStr) : Option CStr :=
  if c ∈ s.bytes then
    some ⟨(s.bytes.dropWhile (· != c)).tail, fun h =>
      s.nul_free ((List.dropWhile_sublist _).subset (List.mem_of_mem_tail h))⟩
  else none

/-- The pieces `strtok` cuts a string into at the bytes `c`, empty ones left out. -/
def tokens (c : UInt8) (s : CStr) : List CStr :=
  ((s.bytes.splitOn c).filter (· ≠ [])).map ofBytes

@[simp] theorem bytes_append (a b : CStr) : (a ++ b).bytes = a.bytes ++ b.bytes := rfl

@[simp] theorem bytes_empty : (∅ : CStr).bytes = [] := rfl

@[simp] theorem bytes_truncate (n : Nat) (s : CStr) : (s.truncate n).bytes = s.bytes.take n := rfl

@[simp] theorem bytes_before (c : UInt8) (s : CStr) :
    (s.before c).bytes = s.bytes.takeWhile (· != c) := rfl

theorem length_append (a b : CStr) : (a ++ b).length = a.length + b.length := List.length_append

/-- Reading back the bytes of a string gives the string. -/
theorem bytes_ofBytes {l : List UInt8} (h : 0 ∉ l) : (ofBytes l).bytes = l :=
  List.takeWhile_eq_self_iff.mpr fun _ hc => bne_iff_ne.mpr fun h0 => h (h0 ▸ hc)

@[simp] theorem ofBytes_bytes (s : CStr) : ofBytes s.bytes = s := by
  refine CStr.ext (List.takeWhile_eq_self_iff.mpr fun x hx => ?_)
  simpa using fun h : x = 0 => s.nul_free (h ▸ hx)

/-- A string that fits is not cut. -/
theorem truncate_of_le {n : Nat} {s : CStr} (h : s.length ≤ n) : s.truncate n = s :=
  CStr.ext (List.take_of_length_le h)

theorem truncate_eq_self_iff {n : Nat} {s : CStr} : s.truncate n = s ↔ s.length ≤ n := by
  refine ⟨fun h => ?_, truncate_of_le⟩
  have hbytes := congrArg bytes h
  rw [bytes_truncate, List.take_eq_self_iff] at hbytes
  exact hbytes

theorem startsWith_iff {s p : CStr} : s.startsWith p ↔ p.bytes <+: s.bytes :=
  List.isPrefixOf_iff_prefix

theorem append_assoc (a b c : CStr) : a ++ b ++ c = a ++ (b ++ c) :=
  CStr.ext (List.append_assoc _ _ _)

/-! ## The first `c` of a string -/

theorem takeWhile_append_cons {c : UInt8} {l r : List UInt8} (h : c ∉ l) :
    (l ++ c :: r).takeWhile (· != c) = l := by
  rw [List.takeWhile_append_of_pos fun x hx => by simpa using fun he : x = c => h (he ▸ hx)]
  simp

theorem dropWhile_append_cons {c : UInt8} {l r : List UInt8} (h : c ∉ l) :
    (l ++ c :: r).dropWhile (· != c) = c :: r := by
  rw [List.dropWhile_append_of_pos fun x hx => by simpa using fun he : x = c => h (he ▸ hx)]
  simp

/-- **The first `c` of a list is at one place.** -/
theorem append_cons_inj {c : UInt8} {p p' r r' : List UInt8} (h : p ++ c :: r = p' ++ c :: r')
    (hp : c ∉ p) (hp' : c ∉ p') : p = p' ∧ r = r' := by
  have hhead := congrArg (List.takeWhile (· != c)) h
  rw [takeWhile_append_cons hp, takeWhile_append_cons hp'] at hhead
  subst hhead
  exact ⟨rfl, (List.cons.inj (List.append_cancel_left h)).2⟩

/-- A list up to and with its first `c` is a prefix of another just when the two begin alike. -/
theorem append_cons_prefix_iff {c : UInt8} {p p' r r' : List UInt8} (hp : c ∉ p) (hp' : c ∉ p') :
    p ++ c :: r <+: p' ++ c :: r' ↔ p = p' ∧ r <+: r' := by
  constructor
  · rintro ⟨t, ht⟩
    rw [List.append_assoc, List.cons_append] at ht
    obtain ⟨rfl, hr⟩ := append_cons_inj ht hp hp'
    exact ⟨rfl, t, hr⟩
  · rintro ⟨rfl, t, rfl⟩
    exact ⟨t, by rw [List.append_assoc, List.cons_append]⟩

/-- The head of a string whose first part has no `c`. -/
theorem before_append {c : UInt8} {s t : CStr} {r : List UInt8} (h : c ∉ t.bytes)
    (hs : s.bytes = t.bytes ++ c :: r) : s.before c = t :=
  CStr.ext (by rw [bytes_before, hs, takeWhile_append_cons h])

/-- The tail of a string whose first part has no `c`. -/
theorem after_append {c : UInt8} {s t : CStr} {r : CStr} (h : c ∉ t.bytes)
    (hs : s.bytes = t.bytes ++ c :: r.bytes) : s.after c = some r := by
  have hmem : c ∈ s.bytes := by rw [hs]; simp
  rw [after, if_pos hmem, Option.some.injEq]
  exact CStr.ext (by simp only [hs, dropWhile_append_cons h, List.tail_cons])

theorem after_eq_none {c : UInt8} {s : CStr} (h : c ∉ s.bytes) : s.after c = none := if_neg h

/-- A string with a `c` is its head, the `c` and its tail. -/
theorem exists_of_after {c : UInt8} {s r : CStr} (h : s.after c = some r) :
    s.bytes = (s.before c).bytes ++ c :: r.bytes := by
  unfold after at h
  split at h
  · next hmem =>
    rw [Option.some.injEq] at h
    subst h
    rw [bytes_before]
    obtain ⟨l, r, hs, hl⟩ := List.eq_append_cons_of_mem hmem
    simp only [hs, takeWhile_append_cons hl, dropWhile_append_cons hl, List.tail_cons]
  · cases h

end CStr

/-- The text of a literal. -/
def text (s : String) : CStr := CStr.ofBytes (CStr.ascii s)

/-! ## Parts framed by a separator -/

/-- What a list is cut into has no separator left. -/
theorem not_mem_of_mem_splitOn {c : UInt8} {l p : List UInt8} (h : p ∈ l.splitOn c) : c ∉ p := by
  induction l generalizing p with
  | nil =>
    rw [List.splitOn_nil, List.mem_singleton] at h
    exact h ▸ List.not_mem_nil
  | cons x l ih =>
    rw [List.splitOn_cons_eq_if_modifyHead] at h
    split at h
    · obtain rfl | h := List.mem_cons.mp h
      · exact List.not_mem_nil
      · exact ih h
    · next hx =>
      cases hl : l.splitOn c with
      | nil => exact absurd hl (List.splitOn_ne_nil c l)
      | cons q qs =>
        rw [hl, List.modifyHead_cons] at h
        obtain rfl | h := List.mem_cons.mp h
        · rw [List.mem_cons, not_or]
          exact ⟨fun hc => hx (beq_iff_eq.mpr hc.symm), ih (hl ▸ List.mem_cons_self)⟩
        · exact ih (hl ▸ List.mem_cons_of_mem _ h)

/-- The parts, a separator before each and one at the end. -/
def framed (c : UInt8) (l : List (List UInt8)) : List UInt8 := l.flatMap (c :: ·) ++ [c]

theorem framed_cons (c : UInt8) (a : List UInt8) (l : List (List UInt8)) :
    framed c (a :: l) = c :: a ++ framed c l := by
  rw [framed, framed, List.flatMap_cons, List.append_assoc]

/-- Framed parts begin with the separator. -/
theorem exists_framed (c : UInt8) (l : List (List UInt8)) : ∃ r, framed c l = c :: r := by
  cases l with
  | nil => exact ⟨[], rfl⟩
  | cons a l => exact ⟨_, framed_cons c a l⟩

/-- **Framed parts compare part by part.** -/
theorem framed_prefix_iff {c : UInt8} {l m : List (List UInt8)} (hl : ∀ a ∈ l, c ∉ a)
    (hm : ∀ a ∈ m, c ∉ a) : framed c l <+: framed c m ↔ l <+: m := by
  induction l generalizing m with
  | nil =>
    obtain ⟨r, hr⟩ := exists_framed c m
    rw [hr]
    simp [framed]
  | cons a l ih =>
    cases m with
    | nil => simp [framed]
    | cons b m =>
      obtain ⟨r, hr⟩ := exists_framed c l
      obtain ⟨r', hr'⟩ := exists_framed c m
      have htail := ih (m := m) (fun x hx => hl x (List.mem_cons_of_mem _ hx))
        fun x hx => hm x (List.mem_cons_of_mem _ hx)
      rw [framed_cons, framed_cons, List.cons_append, List.cons_append,
        List.cons_prefix_cons, List.cons_prefix_cons, ← htail, hr, hr',
        CStr.append_cons_prefix_iff (hl a List.mem_cons_self) (hm b List.mem_cons_self),
        List.cons_prefix_cons]
      simp

end DoubleDecker
