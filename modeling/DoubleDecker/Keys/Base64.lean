import Mathlib.Data.List.GetD

/-!
# Keys/Base64 — the base64 decoder

`base64_decode_block` writes into a buffer of `size` bytes, at a position it never compares with
`size`.  Of a text with `m` sextets it makes `3 * m / 4` bytes, and it stays in the buffer exactly
when `3 * m ≤ 4 * size` (`base64DecodeBlock_eq`).

`decoding` has 80 entries and `value_in > decoding_size` lets the index 80 through: for the byte `{`
the decoder reads the byte behind the table.
-/

namespace DoubleDecker

/-! ## The decoder -/

/-- `decoding`; `-1` is 255 and `-2` is 254. -/
def decoding : List UInt8 :=
  [62, 255, 255, 255, 63, 52, 53, 54, 55, 56, 57, 58, 59, 60, 61, 255,
    255, 255, 254, 255, 255, 255, 0, 1, 2, 3, 4, 5, 6, 7, 8, 9,
    10, 11, 12, 13, 14, 15, 16, 17, 18, 19, 20, 21, 22, 23, 24, 25,
    255, 255, 255, 255, 255, 255, 26, 27, 28, 29, 30, 31, 32, 33, 34, 35,
    36, 37, 38, 39, 40, 41, 42, 43, 44, 45, 46, 47, 48, 49, 50, 51]

/-- What is read behind the end of an array: of `decoding`, and of the buffer. -/
structure Behind where
  table : UInt8
  buffer : UInt8

/-- `base64_decode_value`. -/
def base64DecodeValue (behind : Behind) (valueIn : UInt8) : UInt8 :=
  let v := valueIn - 43
  if 128 ≤ v ∨ 80 < v then 255 else decoding.getD v.toNat behind.table

/-- The label the decoder goes on from. -/
inductive Step where
  | a | b | c | d
  deriving DecidableEq

/-- `base64_decodestate`. -/
structure DecodeState where
  step : Step
  plainchar : UInt8

/-- `base64_init_decodestate`. -/
def base64InitDecodestate : DecodeState := ⟨.a, 0⟩

/-- `*plainchar = v`; `none` is a write past the end of the buffer. -/
def store {size : ℕ} (out : Vector UInt8 size) (i : ℕ) (v : UInt8) : Option (Vector UInt8 size) :=
  if h : i < size then some (out.set i v h) else none

/-- `*plainchar |= v`. -/
def orStore {size : ℕ} (out : Vector UInt8 size) (i : ℕ) (v : UInt8) :
    Option (Vector UInt8 size) :=
  out[i]?.bind fun x => store out i (x ||| v)

/-- The label after the next sextet. -/
def Step.next : Step → Step
  | .a => .b | .b => .c | .c => .d | .d => .a

/-- What is written of one sextet, and `plainchar - plaintext_out` after it. -/
def putFragment {size : ℕ} (out : Vector UInt8 size) (plain : ℕ) (fragment : UInt8) :
    Step → Option (Vector UInt8 size × ℕ)
  | .a => do
    let out ← store out plain ((fragment &&& 0x3f) <<< 2)
    return (out, plain)
  | .b => do
    let out ← orStore out plain ((fragment &&& 0x30) >>> 4)
    let out ← store out (plain + 1) ((fragment &&& 0x0f) <<< 4)
    return (out, plain + 1)
  | .c => do
    let out ← orStore out plain ((fragment &&& 0x3c) >>> 2)
    let out ← store out (plain + 1) ((fragment &&& 0x03) <<< 6)
    return (out, plain + 1)
  | .d => do
    let out ← orStore out plain (fragment &&& 0x3f)
    return (out, plain + 1)

/-- The loop of `base64_decode_block`: what it returns, the buffer and the state. -/
def decodeLoop (behind : Behind) {size : ℕ} (out : Vector UInt8 size) (plain : ℕ) (step : Step) :
    List UInt8 → Option (ℕ × Vector UInt8 size × DecodeState)
  | [] => some (plain, out, ⟨step, out[plain]?.getD behind.buffer⟩)
  | c :: code =>
    let fragment := base64DecodeValue behind c
    -- a negative `fragment` is skipped
    if 128 ≤ fragment then decodeLoop behind out plain step code else do
      let r ← putFragment out plain fragment step
      decodeLoop behind r.1 r.2 step.next code

/-- `base64_decode_block`; `none` is a write past the end of the buffer. -/
def base64DecodeBlock (behind : Behind) {size : ℕ} (codeIn : List UInt8)
    (plaintextOut : Vector UInt8 size) (stateIn : DecodeState) :
    Option (ℕ × Vector UInt8 size × DecodeState) := do
  let out ← store plaintextOut 0 stateIn.plainchar
  decodeLoop behind out 0 stateIn.step codeIn

/-! ## How much it writes -/

/-- The number of characters the decoder takes for a sextet. -/
def sextets (behind : Behind) (code : List UInt8) : ℕ :=
  code.countP fun c => ¬ 128 ≤ base64DecodeValue behind c

@[simp] theorem sextets_nil (behind : Behind) : sextets behind [] = 0 := rfl

theorem sextets_cons (behind : Behind) (c : UInt8) (code : List UInt8) :
    sextets behind (c :: code) =
      sextets behind code + if 128 ≤ base64DecodeValue behind c then 0 else 1 := by
  rw [sextets, List.countP_cons]
  by_cases h : 128 ≤ base64DecodeValue behind c <;> simp [h, sextets]

/-- The sextets since the last full group. -/
def Step.index : Step → ℕ
  | .a => 0 | .b => 1 | .c => 2 | .d => 3

theorem store_cases {size : ℕ} (out : Vector UInt8 size) (i : ℕ) (v : UInt8) :
    (i < size ∧ ∃ out', store out i v = some out') ∨ (size ≤ i ∧ store out i v = none) := by
  by_cases h : i < size
  · exact .inl ⟨h, _, dif_pos h⟩
  · exact .inr ⟨Nat.le_of_not_lt h, dif_neg h⟩

theorem orStore_cases {size : ℕ} (out : Vector UInt8 size) (i : ℕ) (v : UInt8) :
    (i < size ∧ ∃ out', orStore out i v = some out') ∨ (size ≤ i ∧ orStore out i v = none) := by
  by_cases h : i < size
  · refine .inl ⟨h, out.set i (out[i] ||| v) h, ?_⟩
    rw [orStore, Vector.getElem?_eq_getElem h]
    exact dif_pos h
  · refine .inr ⟨Nat.le_of_not_lt h, ?_⟩
    rw [orStore, Vector.getElem?_eq_none (Nat.le_of_not_lt h)]
    rfl

/-- **One sextet**: after `m` of them the position is `3 * m / 4`, and the next one is written
inside the buffer if and only if the buffer has room for `m + 1`. -/
theorem putFragment_cases {size m : ℕ} {step : Step} (out : Vector UInt8 size) (fragment : UInt8)
    (hm : m % 4 = step.index) :
    (3 * (m + 1) ≤ 4 * size ∧ ∃ out',
        putFragment out (3 * m / 4) fragment step = some (out', 3 * (m + 1) / 4)) ∨
      (4 * size < 3 * (m + 1) ∧ putFragment out (3 * m / 4) fragment step = none) := by
  cases step with
  | a =>
    have hm : m % 4 = 0 := hm
    have hnext : 3 * m / 4 = 3 * (m + 1) / 4 := by omega
    obtain ⟨hlt, out', hout⟩ | ⟨hge, hout⟩ :=
      store_cases out (3 * m / 4) ((fragment &&& 0x3f) <<< 2)
    · exact .inl ⟨by omega, out', by simp [putFragment, hout, ← hnext]⟩
    · exact .inr ⟨by omega, by simp [putFragment, hout]⟩
  | b =>
    have hm : m % 4 = 1 := hm
    have hnext : 3 * m / 4 + 1 = 3 * (m + 1) / 4 := by omega
    obtain ⟨hlt, out₁, hout₁⟩ | ⟨hge, hout₁⟩ :=
      orStore_cases out (3 * m / 4) ((fragment &&& 0x30) >>> 4)
    · obtain ⟨hlt, out', hout⟩ | ⟨hge, hout⟩ :=
        store_cases out₁ (3 * m / 4 + 1) ((fragment &&& 0x0f) <<< 4)
      · exact .inl ⟨by omega, out', by simp [putFragment, hout₁, hout, ← hnext]⟩
      · exact .inr ⟨by omega, by simp [putFragment, hout₁, hout]⟩
    · exact .inr ⟨by omega, by simp [putFragment, hout₁]⟩
  | c =>
    have hm : m % 4 = 2 := hm
    have hnext : 3 * m / 4 + 1 = 3 * (m + 1) / 4 := by omega
    obtain ⟨hlt, out₁, hout₁⟩ | ⟨hge, hout₁⟩ :=
      orStore_cases out (3 * m / 4) ((fragment &&& 0x3c) >>> 2)
    · obtain ⟨hlt, out', hout⟩ | ⟨hge, hout⟩ :=
        store_cases out₁ (3 * m / 4 + 1) ((fragment &&& 0x03) <<< 6)
      · exact .inl ⟨by omega, out', by simp [putFragment, hout₁, hout, ← hnext]⟩
      · exact .inr ⟨by omega, by simp [putFragment, hout₁, hout]⟩
    · exact .inr ⟨by omega, by simp [putFragment, hout₁]⟩
  | d =>
    have hm : m % 4 = 3 := hm
    have hnext : 3 * m / 4 + 1 = 3 * (m + 1) / 4 := by omega
    obtain ⟨hlt, out', hout⟩ | ⟨hge, hout⟩ :=
      orStore_cases out (3 * m / 4) (fragment &&& 0x3f)
    · exact .inl ⟨by omega, out', by simp [putFragment, hout, ← hnext]⟩
    · exact .inr ⟨by omega, by simp [putFragment, hout]⟩

theorem Step.index_next (step : Step) {m : ℕ} (hm : m % 4 = step.index) :
    (m + 1) % 4 = step.next.index := by
  cases step <;> simp only [Step.next, Step.index] at hm ⊢ <;> omega

/-- The loop, `m` sextets into the text. -/
theorem decodeLoop_eq (behind : Behind) {size : ℕ} (code : List UInt8) :
    ∀ (m : ℕ) (step : Step) (out : Vector UInt8 size), m % 4 = step.index → 3 * m ≤ 4 * size →
      (decodeLoop behind out (3 * m / 4) step code).map (·.1) =
        if 3 * (m + sextets behind code) ≤ 4 * size then
          some (3 * (m + sextets behind code) / 4) else none := by
  induction code with
  | nil =>
    intro m step out _ hle
    rw [sextets_nil, Nat.add_zero, if_pos hle]
    rfl
  | cons c code ih =>
    intro m step out hm hle
    rw [sextets_cons, decodeLoop]
    by_cases hc : 128 ≤ base64DecodeValue behind c
    · simp only [if_pos hc]
      exact ih m step out hm hle
    · simp only [if_neg hc]
      rw [Nat.add_comm _ 1, ← Nat.add_assoc]
      obtain ⟨hroom, out', hput⟩ | ⟨hfull, hput⟩ :=
        putFragment_cases out (base64DecodeValue behind c) hm
      · rw [hput]
        exact ih (m + 1) step.next out' (Step.index_next step hm) hroom
      · rw [hput, if_neg (by omega)]
        rfl

/-- **What `base64_decode_block` makes of a text**: three bytes of four sextets, and a write past
the end of a buffer that is too small for them. -/
theorem base64DecodeBlock_eq (behind : Behind) {size : ℕ} (hsize : 0 < size) (code : List UInt8)
    (out : Vector UInt8 size) :
    (base64DecodeBlock behind code out base64InitDecodestate).map (·.1) =
      if 3 * sextets behind code ≤ 4 * size then some (3 * sextets behind code / 4) else none := by
  obtain ⟨-, out', hout⟩ | ⟨hge, -⟩ := store_cases out 0 base64InitDecodestate.plainchar
  · rw [base64DecodeBlock, hout]
    have h := decodeLoop_eq behind code 0 .a out' rfl (by omega)
    rwa [Nat.zero_add] at h
  · omega

/-! ## The alphabet -/

/-- The characters of base64. -/
def isBase64 (c : UInt8) : Bool :=
  (65 ≤ c && c ≤ 90) || (97 ≤ c && c ≤ 122) || (48 ≤ c && c ≤ 57) || c == 43 || c == 47

/-- The text decodes to 32 bytes. -/
def DecodesTo32 (code : List UInt8) : Prop := 3 * code.countP isBase64 / 4 = 32

instance (code : List UInt8) : Decidable (DecodesTo32 code) :=
  inferInstanceAs (Decidable (_ = _))

/-- The decoder takes the characters of base64 for sextets, and no other but perhaps `{`. -/
theorem base64DecodeValue_valid (behind : Behind) {c : UInt8} (hc : c ≠ 123) :
    ¬ 128 ≤ base64DecodeValue behind c ↔ isBase64 c = true := by
  have hall : ∀ n < 256, n ≠ 123 →
      (¬ 128 ≤ base64DecodeValue ⟨0, 0⟩ (UInt8.ofNat n) ↔ isBase64 (UInt8.ofNat n) = true) := by
    decide +kernel
  have hsame : base64DecodeValue behind c = base64DecodeValue ⟨0, 0⟩ c := by
    rw [base64DecodeValue, base64DecodeValue]
    by_cases hout : 128 ≤ c - 43 ∨ 80 < c - 43
    · simp only [if_pos hout]
    · simp only [if_neg hout]
      have hne : c - 43 ≠ 80 := fun h => hc (by rw [← UInt8.sub_add_cancel c 43, h]; rfl)
      have hlt : (c - 43).toNat < 80 := by
        have hle : (c - 43).toNat ≤ 80 := UInt8.not_lt.mp (not_or.mp hout).2
        have h80 : (c - 43).toNat ≠ 80 := fun h => hne (UInt8.toNat_inj.mp h)
        omega
      rw [List.getD_eq_getElem _ _ hlt, List.getD_eq_getElem _ _ hlt]
  have h := hall c.toNat c.toNat_lt fun h => hc (UInt8.toNat_inj.mp h)
  rwa [UInt8.ofNat_toNat, ← hsame] at h

/-- Without `{` a text has as many sextets as characters of base64. -/
theorem sextets_eq (behind : Behind) {code : List UInt8} (hcode : 123 ∉ code) :
    sextets behind code = code.countP isBase64 :=
  List.countP_congr fun c hc => by
    rw [decide_eq_true_iff]
    exact base64DecodeValue_valid behind fun h => hcode (h ▸ hc)

end DoubleDecker
