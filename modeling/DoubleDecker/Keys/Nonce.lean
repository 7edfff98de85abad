import DoubleDecker.Library.Carry
import Mathlib.Logic.Function.Iterate

/-!
# Keys/Nonce — the next nonce

`nonce_increment` adds one to the number in a buffer, byte by byte; for 24 bytes a build with
`HAVE_AMD64_ASM` adds in three words of 64 bits.  Both are one addition with a carry, to the base
`2 ^ 8` and to the base `2 ^ 64` (`nonceIncrementAsm_eq`).
-/

namespace DoubleDecker

/-! ## Byte by byte -/

/-- The loop of `nonce_increment` over the bytes left, with the carry `c`; `c` is at most 256 and
fits a `uint_fast16_t`. -/
def nonceLoop (c : ℕ) : List UInt8 → List UInt8
  | [] => []
  | b :: n =>
    let c := c + b.toNat
    UInt8.ofNat c :: nonceLoop (c / 256) n

/-- `nonce_increment`. -/
def nonceIncrement (n : List UInt8) : List UInt8 := nonceLoop 1 n

theorem map_nonceLoop (c : ℕ) (n : List UInt8) :
    (nonceLoop c n).map UInt8.toNat = addCarry 256 c (n.map UInt8.toNat) := by
  induction n generalizing c with
  | nil => rfl
  | cons b n ih =>
    rw [nonceLoop, List.map_cons, List.map_cons, addCarry, ih]
    rfl

@[simp] theorem length_nonceIncrement (n : List UInt8) : (nonceIncrement n).length = n.length := by
  have h := congrArg List.length (map_nonceLoop 1 n)
  rwa [List.length_map, length_addCarry, List.length_map] at h

/-- **The next nonce is one more**, modulo `2 ^ (8 * n)` for `n` bytes. -/
theorem leNat_nonceIncrement (n : List UInt8) :
    leNat (nonceIncrement n) = (leNat n + 1) % 2 ^ (8 * n.length) := by
  rw [leNat, nonceIncrement, map_nonceLoop, ofDigits_addCarry (by norm_num), List.length_map,
    Nat.add_comm, pow_mul]
  rfl

/-! ## In words of 64 bits -/

/-- The word in eight bytes of memory. -/
def readU64 (l : List UInt8) : UInt64 := UInt64.ofNat (leNat l)

/-- `adcq`: the sum of two words and the carry flag, and the carry flag after it. -/
def adcq (carry : Bool) (x y : UInt64) : UInt64 × Bool :=
  (UInt64.ofNat (carry.toNat + x.toNat + y.toNat),
    decide (2 ^ 64 ≤ carry.toNat + x.toNat + y.toNat))

/-- `nonce_increment` of 24 bytes with `HAVE_AMD64_ASM`: `addq $1`, `adcq $0`, `adcq $0`. -/
def nonceIncrementAsm (n : List UInt8) : List UInt8 :=
  let r₀ := adcq false (readU64 (n.take 8)) 1
  let r₁ := adcq r₀.2 (readU64 ((n.drop 8).take 8)) 0
  let r₂ := adcq r₁.2 (readU64 ((n.drop 16).take 8)) 0
  leBytes 8 r₀.1.toNat ++ leBytes 8 r₁.1.toNat ++ leBytes 8 r₂.1.toNat

/-- A word and its carry are a digit to the base `2 ^ 64` and what is carried. -/
theorem adcq_spec (carry : Bool) {x y : UInt64} (hy : carry.toNat + y.toNat ≤ 1) :
    (adcq carry x y).1.toNat = (carry.toNat + y.toNat + x.toNat) % 2 ^ 64 ∧
      (adcq carry x y).2.toNat = (carry.toNat + y.toNat + x.toNat) / 2 ^ 64 := by
  have hx := x.toNat_lt
  have hsum : carry.toNat + x.toNat + y.toNat = carry.toNat + y.toNat + x.toNat := by omega
  refine ⟨by rw [adcq, hsum]; rfl, ?_⟩
  simp only [adcq, hsum]
  by_cases h : 2 ^ 64 ≤ carry.toNat + y.toNat + x.toNat
  · rw [decide_eq_true h, Bool.toNat_true]
    omega
  · rw [decide_eq_false h, Bool.toNat_false]
    omega

theorem toNat_readU64 {l : List UInt8} (h : l.length = 8) : (readU64 l).toNat = leNat l := by
  have hlt := leNat_lt l
  rw [h] at hlt
  exact UInt64.toNat_ofNat_of_lt' (by omega)

/-- Three words of eight bytes are one number. -/
theorem leNat_words {u v w : List UInt8} (hu : u.length = 8) (hv : v.length = 8)
    (hw : w.length = 8) :
    leNat (u ++ v ++ w) = Nat.ofDigits (2 ^ 64) [leNat u, leNat v, leNat w] := by
  have hgroups : ∀ g ∈ [u.map UInt8.toNat, v.map UInt8.toNat, w.map UInt8.toNat], g.length = 8 := by
    simp [hu, hv, hw]
  have h := ofDigits_flatten 256 8 hgroups
  rw [leNat, List.map_append, List.map_append, List.append_assoc]
  simpa [leNat] using h

/-- **The words are the bytes.** -/
theorem nonceIncrementAsm_eq {n : List UInt8} (h : n.length = 24) :
    nonceIncrementAsm n = nonceIncrement n := by
  set u := n.take 8 with hu
  set v := (n.drop 8).take 8 with hv
  set w := (n.drop 16).take 8 with hw
  have hulen : u.length = 8 := by rw [hu, List.length_take, h]; rfl
  have hvlen : v.length = 8 := by rw [hv, List.length_take, List.length_drop, h]; rfl
  have hwlen : w.length = 8 := by rw [hw, List.length_take, List.length_drop, h]; rfl
  have hwords : u ++ v ++ w = n := by
    have hlast : (n.drop 8).drop 8 = w := by
      rw [hw, List.drop_drop, List.take_of_length_le (by rw [List.length_drop, h])]
    rw [hu, hv, List.append_assoc, ← hlast, List.take_append_drop, List.take_append_drop]
  obtain ⟨hr₀, hc₀⟩ := adcq_spec false (x := readU64 u) (y := 1) (by decide)
  obtain ⟨hr₁, hc₁⟩ := adcq_spec (adcq false (readU64 u) 1).2 (x := readU64 v) (y := 0)
    (Nat.le_of_lt_succ (Bool.toNat_lt _))
  obtain ⟨hr₂, -⟩ := adcq_spec (adcq (adcq false (readU64 u) 1).2 (readU64 v) 0).2
    (x := readU64 w) (y := 0) (Nat.le_of_lt_succ (Bool.toNat_lt _))
  refine leNat_inj (by simp [nonceIncrementAsm, h]) ?_
  have hdigits : leNat (nonceIncrementAsm n) =
      Nat.ofDigits (2 ^ 64) (addCarry (2 ^ 64) 1 [leNat u, leNat v, leNat w]) := by
    rw [toNat_readU64 hulen] at hr₀ hc₀
    rw [toNat_readU64 hvlen, hc₀] at hr₁ hc₁
    rw [toNat_readU64 hwlen, hc₁] at hr₂
    have hword : ∀ x : UInt64, leNat (leBytes 8 x.toNat) = x.toNat := fun x => by
      rw [leNat_leBytes]
      exact Nat.mod_eq_of_lt x.toNat_lt
    rw [nonceIncrementAsm, leNat_words (length_leBytes _ _) (length_leBytes _ _)
      (length_leBytes _ _), hword, hword, hword, hr₀, hr₁, hr₂]
    rfl
  rw [hdigits, ofDigits_addCarry (by norm_num), ← leNat_words hulen hvlen hwlen, hwords,
    leNat_nonceIncrement, h, Nat.add_comm, List.length_cons, List.length_cons, List.length_cons,
    List.length_nil, ← pow_mul]

/-! ## One nonce after the other -/

/-- **The nonces taken so far**, the last one first, and the nonce that is kept: each is the next
one of what was kept before it. -/
inductive Taken (n₀ : List UInt8) : List (List UInt8) → List UInt8 → Prop
  | start : Taken n₀ [] n₀
  | next {used : List (List UInt8)} {n : List UInt8} : Taken n₀ used n →
      Taken n₀ (nonceIncrement n :: used) (nonceIncrement n)

theorem length_iterate (n : List UInt8) (i : ℕ) : (nonceIncrement^[i] n).length = n.length := by
  induction i with
  | zero => rfl
  | succ i ih => rw [Function.iterate_succ_apply', length_nonceIncrement, ih]

theorem leNat_iterate {n : List UInt8} (h : n.length = 24) (i : ℕ) :
    leNat (nonceIncrement^[i] n) = (leNat n + i) % 2 ^ 192 := by
  induction i with
  | zero =>
    have hlt := leNat_lt n
    rw [h] at hlt
    exact (Nat.mod_eq_of_lt hlt).symm
  | succ i ih =>
    rw [Function.iterate_succ_apply', leNat_nonceIncrement, length_iterate, h, ih, Nat.mod_add_mod]
    rfl

section

variable {n₀ n : List UInt8} {used : List (List UInt8)}

/-- What is kept was incremented once for each nonce taken. -/
theorem Taken.eq_iterate (h : Taken n₀ used n) : n = nonceIncrement^[used.length] n₀ := by
  induction h with
  | start => rfl
  | next _ ih => rw [List.length_cons, Function.iterate_succ_apply', ← ih]

theorem Taken.mem (h : Taken n₀ used n) {m : List UInt8} (hm : m ∈ used) :
    ∃ i, 0 < i ∧ i ≤ used.length ∧ m = nonceIncrement^[i] n₀ := by
  induction h with
  | start => cases hm
  | @next used n hprev ih =>
    obtain rfl | hm := List.mem_cons.mp hm
    · exact ⟨used.length + 1, Nat.succ_pos _, Nat.le_refl _, (hprev.next).eq_iterate⟩
    · obtain ⟨i, hpos, hle, heq⟩ := ih hm
      exact ⟨i, hpos, Nat.le_succ_of_le hle, heq⟩

/-- **No nonce is taken twice** among fewer than `2 ^ 192`. -/
theorem Taken.nodup (h : Taken n₀ used n) (hlen : n₀.length = 24) (hfew : used.length < 2 ^ 192) :
    used.Nodup := by
  induction h with
  | start => exact List.nodup_nil
  | @next used n hprev ih =>
    rw [List.length_cons] at hfew
    refine List.nodup_cons.mpr ⟨fun hmem => ?_, ih (Nat.lt_of_succ_lt hfew)⟩
    obtain ⟨i, hpos, hle, heq⟩ := hprev.mem hmem
    have hnext : nonceIncrement n = nonceIncrement^[used.length + 1] n₀ := hprev.next.eq_iterate
    have hvalue := congrArg leNat (hnext.symm.trans heq)
    rw [leNat_iterate hlen, leNat_iterate hlen] at hvalue
    omega

end

end DoubleDecker
