import Mathlib.Data.Nat.Digits.Lemmas

/-!
# Library/Carry — adding to a number written in digits

The digits stand in a list, the least significant first.  Adding goes through them with a carry, and
what is carried out of the last is lost: the sum is right modulo the power of the base.  The same
digits in groups are the digits to a greater base.
-/

namespace DoubleDecker

/-! ## The carry -/

/-- `c` is added to a number of digits to the base `b`. -/
def addCarry (b c : ℕ) : List ℕ → List ℕ
  | [] => []
  | d :: ds => (c + d) % b :: addCarry b ((c + d) / b) ds

@[simp] theorem length_addCarry (b c : ℕ) (ds : List ℕ) : (addCarry b c ds).length = ds.length := by
  induction ds generalizing c with
  | nil => rfl
  | cons d ds ih => rw [addCarry, List.length_cons, List.length_cons, ih]

/-- **The sum is right** modulo the power of the base. -/
theorem ofDigits_addCarry {b : ℕ} (hb : 0 < b) (c : ℕ) (ds : List ℕ) :
    Nat.ofDigits b (addCarry b c ds) = (c + Nat.ofDigits b ds) % b ^ ds.length := by
  induction ds generalizing c with
  | nil => simp [addCarry, Nat.mod_one]
  | cons d ds ih =>
    have hsum : c + Nat.ofDigits b (d :: ds) = c + d + b * Nat.ofDigits b ds := by
      rw [Nat.ofDigits_cons]
      omega
    rw [addCarry, Nat.ofDigits_cons, ih, hsum, List.length_cons, pow_succ', Nat.mod_mul,
      Nat.add_mul_mod_self_left, Nat.add_mul_div_left _ _ hb]

/-- **Digits in groups** are the digits to the power of the base. -/
theorem ofDigits_flatten (b k : ℕ) {groups : List (List ℕ)} (h : ∀ g ∈ groups, g.length = k) :
    Nat.ofDigits b groups.flatten = Nat.ofDigits (b ^ k) (groups.map (Nat.ofDigits b)) := by
  induction groups with
  | nil => rfl
  | cons g groups ih =>
    rw [List.flatten_cons, Nat.ofDigits_append, List.map_cons, Nat.ofDigits_cons,
      h g List.mem_cons_self, ih fun g' hg' => h g' (List.mem_cons_of_mem _ hg')]

/-! ## Bytes -/

/-- The number in a buffer, its least significant byte first. -/
def leNat (l : List UInt8) : ℕ := Nat.ofDigits 256 (l.map UInt8.toNat)

@[simp] theorem leNat_nil : leNat [] = 0 := rfl

@[simp] theorem leNat_cons (b : UInt8) (l : List UInt8) :
    leNat (b :: l) = b.toNat + 256 * leNat l := rfl

theorem leNat_lt (l : List UInt8) : leNat l < 256 ^ l.length := by
  have hlt : ∀ x ∈ l.map UInt8.toNat, x < 256 := fun x hx => by
    obtain ⟨b, -, rfl⟩ := List.mem_map.mp hx
    exact b.toNat_lt
  have h := Nat.ofDigits_lt_base_pow_length (by norm_num) hlt
  rwa [List.length_map] at h

/-- **A buffer of some length is known by its number.** -/
theorem leNat_inj {l m : List UInt8} (hlen : l.length = m.length) (h : leNat l = leNat m) :
    l = m := by
  induction l generalizing m with
  | nil => exact (List.length_eq_zero_iff.mp hlen.symm).symm
  | cons b l ih =>
    obtain ⟨c, m, rfl⟩ := List.exists_cons_of_ne_nil (List.ne_nil_of_length_eq_add_one hlen.symm)
    rw [leNat_cons, leNat_cons] at h
    have hb := b.toNat_lt
    have hc := c.toNat_lt
    have hhead : b.toNat = c.toNat := by omega
    rw [UInt8.toNat_inj.mp hhead, ih (Nat.succ.inj hlen) (by omega)]

/-- The `w` bytes of a number. -/
def leBytes : ℕ → ℕ → List UInt8
  | 0, _ => []
  | w + 1, n => UInt8.ofNat n :: leBytes w (n / 256)

@[simp] theorem length_leBytes (w n : ℕ) : (leBytes w n).length = w := by
  induction w generalizing n with
  | zero => rfl
  | succ w ih => rw [leBytes, List.length_cons, ih]

theorem leNat_leBytes (w n : ℕ) : leNat (leBytes w n) = n % 256 ^ w := by
  induction w generalizing n with
  | zero => simp [leBytes, Nat.mod_one]
  | succ w ih =>
    rw [leBytes, leNat_cons, ih, pow_succ', Nat.mod_mul]
    rfl

end DoubleDecker
