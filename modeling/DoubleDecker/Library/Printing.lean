import DoubleDecker.Library.CString
import Mathlib.Algebra.Group.Int.Defs
import Mathlib.Algebra.GroupWithZero.Nat

/-!
# Library/Printing — a text printed into a buffer piece by piece

    retval = snprintf(ptr, len, "%s", text);  len -= retval;  ptr += retval;

`snprintf` returns the length of the whole text, also when it cut the text off: then `ptr` leaves
the buffer and `len`, an `int` that is passed as a `size_t`, says nothing about it any more.  Up to
the first such piece the two agree, and what comes before the last piece decides
(`inside_calls_iff`).
-/

namespace DoubleDecker

/-- A call of `snprintf` that prints a text at `buffer + off`. -/
structure Snprintf where
  off : Nat
  len : Int
  text : CStr
  deriving DecidableEq

namespace Snprintf

/-- An `int` taken as a `size_t`. -/
def sizeT (len : Int) : Nat := (len % 2 ^ 64).toNat

/-- How many bytes are written, with the terminating `NUL`. -/
def written (c : Snprintf) : Nat := min (sizeT c.len) (c.text.length + 1)

/-- The calls that print the texts one after the other. -/
def calls (off : Nat) (len : Int) : List CStr → List Snprintf
  | [] => []
  | text :: texts => ⟨off, len, text⟩ :: calls (off + text.length) (len - text.length) texts

/-- **The call is inside a buffer of `n` bytes**: it starts there, and the size it is told is what
is left. -/
structure Inside (n : Nat) (c : Snprintf) : Prop where
  off : c.off < n
  len : 0 ≤ c.len
  size : sizeT c.len = n - c.off

theorem Inside.written_le {n : Nat} {c : Snprintf} (h : c.Inside n) : c.off + c.written ≤ n := by
  have hoff := h.off
  have hle : c.written ≤ n - c.off := by
    rw [written, h.size]
    exact Nat.min_le_left _ _
  omega

/-- The length of the texts together. -/
def textLength (texts : List CStr) : Nat := (texts.map CStr.length).sum

@[simp] theorem textLength_nil : textLength [] = 0 := rfl

@[simp] theorem textLength_cons (text : CStr) (texts : List CStr) :
    textLength (text :: texts) = text.length + textLength texts := rfl

theorem sizeT_sub {n off : Nat} (hn : n < 2 ^ 64) (h : off ≤ n) :
    sizeT ((n : Int) - off) = n - off := by
  rw [sizeT, Int.emod_eq_of_lt (by omega) (by omega)]
  omega

/-- One call, told what is left. -/
theorem inside_iff {n off : Nat} (hn : n < 2 ^ 64) (text : CStr) :
    (Snprintf.mk off ((n : Int) - off) text).Inside n ↔ off < n := by
  refine ⟨fun h => h.off, fun h => ⟨h, ?_, sizeT_sub hn h.le⟩⟩
  simp only
  omega

/-- **All calls are inside just when the texts before the last one fit.** -/
theorem inside_calls_iff {n : Nat} (hn : n < 2 ^ 64) : ∀ {texts : List CStr} (off : Nat),
    texts ≠ [] → ((∀ c ∈ calls off ((n : Int) - off) texts, c.Inside n) ↔
      off + textLength texts.dropLast < n)
  | [], _, h => absurd rfl h
  | [text], off, _ => by
    rw [calls, calls, List.forall_mem_singleton, inside_iff hn]
    simp
  | text :: text' :: texts, off, _ => by
    have hlen : (n : Int) - off - text.length = n - (off + text.length : Nat) := by omega
    rw [calls, List.forall_mem_cons, inside_iff hn, hlen,
      inside_calls_iff hn _ (List.cons_ne_nil text' texts), List.dropLast_cons_cons,
        textLength_cons]
    omega

end Snprintf

end DoubleDecker
