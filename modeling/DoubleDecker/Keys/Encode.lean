import DoubleDecker.Keys.Base64
import DoubleDecker.Library.CString
import DoubleDecker.Library.Transducer
import Mathlib.Tactic.IntervalCases

/-!
# Keys/Encode — the base64 encoder

    pieces of a key ──encode_block, …, encode_blockend──▸ text ──decode_block, …──▸ the key

The encoder writes for a piece what is complete, and keeps the bits of the last byte in its state;
the decoder has written the byte those bits are missing from.  However the key is cut for the one
and the text for the other, the bytes come back.
-/

namespace DoubleDecker

/-! ## `cencode.c` -/

/-- `CHARS_PER_LINE`. -/
def charsPerLine : ℕ := 72

/-- The label the encoder goes on from. -/
inductive EncodeStep where
  | a | b | c
  deriving DecidableEq

/-- `base64_encodestate`. -/
structure EncodeState where
  step : EncodeStep
  result : UInt8
  stepcount : ℕ

/-- `base64_init_encodestate`. -/
def base64InitEncodestate : EncodeState := ⟨.a, 0, 0⟩

/-- `encoding`. -/
def encoding : List UInt8 :=
  CStr.ascii "ABCDEFGHIJKLMNOPQRSTUVWXYZabcdefghijklmnopqrstuvwxyz0123456789+/"

/-- `base64_encode_value`; `none` is a read in front of `encoding`, for a negative `value_in`. -/
def base64EncodeValue (valueIn : UInt8) : Option UInt8 :=
  if 128 ≤ valueIn then none else if 63 < valueIn then some 61 else encoding[valueIn.toNat]?

/-- The loop of `base64_encode_block`: the text and the state. -/
def encodeLoop (result : UInt8) (stepcount : ℕ) :
    EncodeStep → List UInt8 → Option (List UInt8 × EncodeState)
  | step, [] => some ([], ⟨step, result, stepcount⟩)
  | .a, fragment :: plain => do
    let c ← base64EncodeValue ((fragment &&& 0xfc) >>> 2)
    let r ← encodeLoop ((fragment &&& 0x03) <<< 4) stepcount .b plain
    return (c :: r.1, r.2)
  | .b, fragment :: plain => do
    let c ← base64EncodeValue (result ||| (fragment &&& 0xf0) >>> 4)
    let r ← encodeLoop ((fragment &&& 0x0f) <<< 2) stepcount .c plain
    return (c :: r.1, r.2)
  | .c, fragment :: plain => do
    let c ← base64EncodeValue (result ||| (fragment &&& 0xc0) >>> 6)
    let d ← base64EncodeValue (fragment &&& 0x3f)
    if stepcount + 1 = charsPerLine / 4 then
      let r ← encodeLoop (fragment &&& 0x3f) 0 .a plain
      return (c :: d :: 10 :: r.1, r.2)
    else
      let r ← encodeLoop (fragment &&& 0x3f) (stepcount + 1) .a plain
      return (c :: d :: r.1, r.2)

/-- `base64_encode_block`. -/
def base64EncodeBlock (plaintextIn : List UInt8) (stateIn : EncodeState) :
    Option (List UInt8 × EncodeState) :=
  encodeLoop stateIn.result stateIn.stepcount stateIn.step plaintextIn

/-- `base64_encode_blockend`. -/
def base64EncodeBlockend (stateIn : EncodeState) : Option (List UInt8) :=
  match stateIn.step with
  | .b => do return [← base64EncodeValue stateIn.result, 61, 61, 10]
  | .c => do return [← base64EncodeValue stateIn.result, 61, 10]
  | .a => some [10]

/-! ## The encoder as a machine -/

/-- The letter of a sextet. -/
def letter (v : UInt8) : UInt8 := encoding.getD v.toNat 61

theorem base64EncodeValue_letter {v : UInt8} (hv : v < 64) :
    base64EncodeValue v = some (letter v) := by
  have hlt : v.toNat < 64 := hv
  have hneg : ¬ (128 : UInt8) ≤ v := fun h => absurd (UInt8.le_iff_toNat_le.mp h) (by simp; omega)
  have hpad : ¬ (63 : UInt8) < v := fun h => absurd (UInt8.lt_iff_toNat_lt.mp h) (by simp; omega)
  have hlen : v.toNat < encoding.length := hlt
  rw [base64EncodeValue, if_neg hneg, if_neg hpad, letter, List.getElem?_eq_getElem hlen,
    List.getD_eq_getElem _ _ hlen]

/-- What `base64_encode_block` writes for a byte. -/
def encoder : Transducer EncodeState UInt8 UInt8 where
  step s fragment :=
    match s.step with
    | .a => ([letter ((fragment &&& 0xfc) >>> 2)], ⟨.b, (fragment &&& 0x03) <<< 4, s.stepcount⟩)
    | .b => ([letter (s.result ||| (fragment &&& 0xf0) >>> 4)],
        ⟨.c, (fragment &&& 0x0f) <<< 2, s.stepcount⟩)
    | .c =>
      if s.stepcount + 1 = charsPerLine / 4 then
        ([letter (s.result ||| (fragment &&& 0xc0) >>> 6), letter (fragment &&& 0x3f), 10],
          ⟨.a, fragment &&& 0x3f, 0⟩)
      else
        ([letter (s.result ||| (fragment &&& 0xc0) >>> 6), letter (fragment &&& 0x3f)],
          ⟨.a, fragment &&& 0x3f, s.stepcount + 1⟩)

theorem or_lt_64 {v w : UInt8} (hv : v < 64) (hw : w < 64) : v ||| w < 64 := by
  rw [UInt8.lt_iff_toNat_lt, UInt8.toNat_or]
  exact Nat.or_lt_two_pow (n := 6) hv hw

theorem sextet_lt (x : UInt8) : (x &&& 0xfc) >>> 2 < 64 ∧ (x &&& 0x03) <<< 4 < 64 ∧
    (x &&& 0xf0) >>> 4 < 64 ∧ (x &&& 0x0f) <<< 2 < 64 ∧ (x &&& 0xc0) >>> 6 < 64 ∧
    x &&& 0x3f < 64 := by
  have hall : ∀ n < 256, (UInt8.ofNat n &&& 0xfc) >>> 2 < 64 ∧ (UInt8.ofNat n &&& 0x03) <<< 4 < 64 ∧
      (UInt8.ofNat n &&& 0xf0) >>> 4 < 64 ∧ (UInt8.ofNat n &&& 0x0f) <<< 2 < 64 ∧
      (UInt8.ofNat n &&& 0xc0) >>> 6 < 64 ∧ UInt8.ofNat n &&& 0x3f < 64 := by decide +kernel
  have h := hall x.toNat x.toNat_lt
  rwa [UInt8.ofNat_toNat] at h

/-- **The encoder never reads outside `encoding`**, and writes what the machine writes. -/
theorem encodeLoop_eq (plain : List UInt8) : ∀ {s : EncodeState}, s.result < 64 →
    encodeLoop s.result s.stepcount s.step plain = some (encoder.run s plain) ∧
      (encoder.run s plain).2.result < 64 := by
  induction plain with
  | nil =>
    rintro ⟨step, result, n⟩ hs
    exact ⟨by cases step <;> rfl, hs⟩
  | cons x plain ih =>
    rintro ⟨step, result, n⟩ hs
    obtain ⟨h₁, h₂, h₃, h₄, h₅, h₆⟩ := sextet_lt x
    cases step with
    | a =>
      obtain ⟨hloop, hlt⟩ := ih (s := ⟨.b, (x &&& 0x03) <<< 4, n⟩) h₂
      refine ⟨?_, hlt⟩
      simp only [encodeLoop, base64EncodeValue_letter h₁, hloop]
      rfl
    | b =>
      obtain ⟨hloop, hlt⟩ := ih (s := ⟨.c, (x &&& 0x0f) <<< 2, n⟩) h₄
      refine ⟨?_, hlt⟩
      simp only [encodeLoop, base64EncodeValue_letter (or_lt_64 hs h₃), hloop]
      rfl
    | c =>
      by_cases hn : n + 1 = charsPerLine / 4
      · obtain ⟨hloop, hlt⟩ := ih (s := ⟨.a, x &&& 0x3f, 0⟩) h₆
        refine ⟨?_, by simpa [encoder, hn] using hlt⟩
        simp only [encodeLoop, base64EncodeValue_letter (or_lt_64 hs h₅),
          base64EncodeValue_letter h₆, if_pos hn, hloop]
        simp [encoder, hn]
      · obtain ⟨hloop, hlt⟩ := ih (s := ⟨.a, x &&& 0x3f, n + 1⟩) h₆
        refine ⟨?_, by simpa [encoder, hn] using hlt⟩
        simp only [encodeLoop, base64EncodeValue_letter (or_lt_64 hs h₅),
          base64EncodeValue_letter h₆, if_neg hn, hloop]
        simp [encoder, hn]

/-! ## The decoder as a machine -/

/-- What `base64_decode_block` writes for a character. -/
def decoder (behind : Behind) : Transducer DecodeState UInt8 UInt8 where
  step t c :=
    let fragment := base64DecodeValue behind c
    if 128 ≤ fragment then ([], t)
    else
      match t.step with
      | .a => ([], ⟨.b, (fragment &&& 0x3f) <<< 2⟩)
      | .b => ([t.plainchar ||| (fragment &&& 0x30) >>> 4], ⟨.c, (fragment &&& 0x0f) <<< 4⟩)
      | .c => ([t.plainchar ||| (fragment &&& 0x3c) >>> 2], ⟨.d, (fragment &&& 0x03) <<< 6⟩)
      | .d => ([t.plainchar ||| (fragment &&& 0x3f)], ⟨.a, 0⟩)

/-- For every character but `{` it does not matter what is behind the table. -/
theorem base64DecodeValue_behind (behind behind' : Behind) {c : UInt8} (hc : c ≠ 123) :
    base64DecodeValue behind c = base64DecodeValue behind' c := by
  rw [base64DecodeValue, base64DecodeValue]
  by_cases hout : 128 ≤ c - 43 ∨ 80 < c - 43
  · simp only [if_pos hout]
  · simp only [if_neg hout]
    have hle : (c - 43).toNat ≤ 80 := UInt8.not_lt.mp (not_or.mp hout).2
    have hne : (c - 43).toNat ≠ 80 := fun h => hc (by
      have h80 : c - 43 = 80 := UInt8.toNat_inj.mp h
      rw [← UInt8.sub_add_cancel c 43, h80]
      rfl)
    have hlt : (c - 43).toNat < decoding.length := by
      have hlen : decoding.length = 80 := rfl
      omega
    rw [List.getD_eq_getElem _ _ hlt, List.getD_eq_getElem _ _ hlt]

/-- A letter is decoded to its sextet. -/
theorem base64DecodeValue_letter (behind : Behind) {v : UInt8} (hv : v < 64) :
    base64DecodeValue behind (letter v) = v := by
  have hall : ∀ n < 64, letter (UInt8.ofNat n) ≠ 123 ∧
      base64DecodeValue ⟨0, 0⟩ (letter (UInt8.ofNat n)) = UInt8.ofNat n := by decide +kernel
  have h := hall v.toNat hv
  rw [UInt8.ofNat_toNat] at h
  rw [base64DecodeValue_behind behind ⟨0, 0⟩ h.1, h.2]

theorem decoder_letter (behind : Behind) (t : DecodeState) {v : UInt8} (hv : v < 64) :
    (decoder behind).step t (letter v) =
      match t.step with
      | .a => ([], ⟨.b, (v &&& 0x3f) <<< 2⟩)
      | .b => ([t.plainchar ||| (v &&& 0x30) >>> 4], ⟨.c, (v &&& 0x0f) <<< 4⟩)
      | .c => ([t.plainchar ||| (v &&& 0x3c) >>> 2], ⟨.d, (v &&& 0x03) <<< 6⟩)
      | .d => ([t.plainchar ||| (v &&& 0x3f)], ⟨.a, 0⟩) := by
  have hneg : ¬ 128 ≤ base64DecodeValue behind (letter v) := by
    rw [base64DecodeValue_letter behind hv]
    exact UInt8.not_le.mpr (UInt8.lt_trans hv (by decide))
  rw [decoder]
  simp only [if_neg hneg]
  rw [base64DecodeValue_letter behind hv]

/-- The ends of lines and the padding are skipped. -/
theorem decoder_skip (behind : Behind) (t : DecodeState) :
    (decoder behind).step t 10 = ([], t) ∧ (decoder behind).step t 61 = ([], t) := by
  constructor <;>
    rw [decoder] <;>
    simp only [base64DecodeValue_behind behind ⟨0, 0⟩ (c := 10) (by decide),
      base64DecodeValue_behind behind ⟨0, 0⟩ (c := 61) (by decide)] <;>
    exact if_pos (by decide)

/-! ## Where the bits of a byte are

A byte is cut after its six, four or two upper bits; the lower ones wait for the next byte. -/

/-- The six upper bits, as they come out of the first sextet. -/
theorem bits_first (x : UInt8) : ((x &&& 0xfc) >>> 2 &&& 0x3f) <<< 2 = x &&& 0xfc := by
  apply UInt8.eq_of_toBitVec_eq
  ext i hi
  simp
  interval_cases i <;> simp

/-- The second sextet: two bits of the byte before, four of the next. -/
theorem bits_second (x y : UInt8) :
    x &&& (0xfc : UInt8) ||| (((x &&& 0x03) <<< 4 ||| (y &&& 0xf0) >>> 4) &&& 0x30) >>> 4 = x ∧
      (((x &&& 0x03) <<< 4 ||| (y &&& 0xf0) >>> 4) &&& 0x0f) <<< 4 = y &&& 0xf0 := by
  constructor <;>
    apply UInt8.eq_of_toBitVec_eq <;>
    ext i hi <;>
    simp <;>
    interval_cases i <;> simp

/-- The third: four bits of the byte before, two of the next. -/
theorem bits_third (x y : UInt8) :
    x &&& (0xf0 : UInt8) ||| (((x &&& 0x0f) <<< 2 ||| (y &&& 0xc0) >>> 6) &&& 0x3c) >>> 2 = x ∧
      (((x &&& 0x0f) <<< 2 ||| (y &&& 0xc0) >>> 6) &&& 0x03) <<< 6 = y &&& 0xc0 := by
  constructor <;>
    apply UInt8.eq_of_toBitVec_eq <;>
    ext i hi <;>
    simp <;>
    interval_cases i <;> simp

/-- The fourth: the six lower bits. -/
theorem bits_fourth (x : UInt8) : x &&& 0xc0 ||| (x &&& 0x3f &&& 0x3f) = x := by
  apply UInt8.eq_of_toBitVec_eq
  ext i hi
  simp
  interval_cases i <;> simp

/-! ## The round trip -/

/-- **What is held**: the decoder is at the encoder's place, and has the upper bits of a byte whose
lower bits the encoder has. -/
inductive Held : EncodeState → DecodeState → List UInt8 → Prop
  | none (result : UInt8) (n : ℕ) (plainchar : UInt8) :
    Held ⟨.a, result, n⟩ ⟨.a, plainchar⟩ []
  | six (x : UInt8) (n : ℕ) : Held ⟨.b, (x &&& 0x03) <<< 4, n⟩ ⟨.b, x &&& 0xfc⟩ [x]
  | four (x : UInt8) (n : ℕ) : Held ⟨.c, (x &&& 0x0f) <<< 2, n⟩ ⟨.c, x &&& 0xf0⟩ [x]

/-- One byte is held, but after whole groups. -/
theorem Held.length {s : EncodeState} {t : DecodeState} {h : List UInt8} (hh : Held s t h) :
    h.length = 1 ∨ h.length = 0 ∧ t.step.index = 0 := by
  cases hh with
  | none result n plainchar => exact Or.inr ⟨rfl, rfl⟩
  | six x n => exact Or.inl rfl
  | four x n => exact Or.inl rfl

/-- **The decoder undoes the encoder.** -/
theorem decoder_undoes (behind : Behind) : encoder.Undoes (decoder behind) Held where
  step := by
    intro s t h y hh
    obtain ⟨h₁, h₂, h₃, h₄, h₅, h₆⟩ := sextet_lt y
    cases hh with
    | none result n plainchar =>
      refine ⟨[y], ?_, ?_⟩
      · simp only [encoder, Transducer.run_cons, Transducer.run_nil, decoder_letter behind _ h₁,
          bits_first]
        exact .six y n
      · simp only [encoder, Transducer.run_cons, Transducer.run_nil, decoder_letter behind _ h₁]
        rfl
    | six x n =>
      have hlt := or_lt_64 (sextet_lt x).2.1 h₃
      obtain ⟨hx, hy⟩ := bits_second x y
      refine ⟨[y], ?_, ?_⟩
      · simp only [encoder, Transducer.run_cons, Transducer.run_nil, decoder_letter behind _ hlt,
          hy]
        exact .four y n
      · simp only [encoder, Transducer.run_cons, Transducer.run_nil, decoder_letter behind _ hlt,
          hx]
        rfl
    | four x n =>
      have hlt := or_lt_64 (sextet_lt x).2.2.2.1 h₅
      obtain ⟨hx, hy⟩ := bits_third x y
      refine ⟨[], ?_, ?_⟩
      · by_cases hn : n + 1 = charsPerLine / 4
        · simp only [encoder, if_pos hn, Transducer.run_cons, Transducer.run_nil,
            decoder_letter behind _ hlt, decoder_letter behind _ h₆, decoder_skip]
          exact .none _ _ _
        · simp only [encoder, if_neg hn, Transducer.run_cons, Transducer.run_nil,
            decoder_letter behind _ hlt, decoder_letter behind _ h₆]
          exact .none _ _ _
      · by_cases hn : n + 1 = charsPerLine / 4
        · simp only [encoder, if_pos hn, Transducer.run_cons, Transducer.run_nil,
            decoder_letter behind _ hlt, decoder_letter behind _ h₆, decoder_skip, hx, hy,
              bits_fourth]
          rfl
        · simp only [encoder, if_neg hn, Transducer.run_cons, Transducer.run_nil,
            decoder_letter behind _ hlt, decoder_letter behind _ h₆, hx, hy, bits_fourth]
          rfl

/-- `base64_encode_blockend` hands over what is held, and no bit of a byte behind it. -/
theorem decoder_blockend (behind : Behind) {s : EncodeState} {t : DecodeState} {h : List UInt8}
    (hh : Held s t h) :
    ∃ text, base64EncodeBlockend s = some text ∧ ((decoder behind).run t text).1 = h ∧
      (((decoder behind).run t text).2.step ≠ .a →
        ((decoder behind).run t text).2.plainchar = 0) := by
  cases hh with
  | none result n plainchar =>
    refine ⟨[10], rfl, ?_⟩
    simp only [Transducer.run_cons, Transducer.run_nil, decoder_skip]
    exact ⟨rfl, fun h => absurd rfl h⟩
  | six x n =>
    have hlt := (sextet_lt x).2.1
    obtain ⟨hx, hnext⟩ := bits_second x 0
    refine ⟨_, by simp only [base64EncodeBlockend, base64EncodeValue_letter hlt]; rfl, ?_⟩
    simp only [Transducer.run_cons, Transducer.run_nil, decoder_letter behind _ hlt, decoder_skip]
    exact ⟨by simpa using hx, fun _ => by simpa using hnext⟩
  | four x n =>
    have hlt := (sextet_lt x).2.2.2.1
    obtain ⟨hx, hnext⟩ := bits_third x 0
    refine ⟨_, by simp only [base64EncodeBlockend, base64EncodeValue_letter hlt]; rfl, ?_⟩
    simp only [Transducer.run_cons, Transducer.run_nil, decoder_letter behind _ hlt, decoder_skip]
    exact ⟨by simpa using hx, fun _ => by simpa using hnext⟩

/-! ## The decoder's buffer -/

/-- The buffer holds what was decoded, and the byte that is not complete. -/
structure Written {size : ℕ} (out : Vector UInt8 size) (plain : ℕ) (done : List UInt8)
    (t : DecodeState) : Prop where
  done : out.toList.take plain = done
  pending : t.step ≠ .a → out[plain]? = some t.plainchar

theorem take_set_self {size : ℕ} (out : Vector UInt8 size) {plain i : ℕ} (hi : i < size)
    (hle : plain ≤ i) (v : UInt8) :
    (out.set i v hi).toList.take plain = out.toList.take plain := by
  rw [Vector.toList_set, List.take_set_of_le hle]

theorem take_set_succ {size : ℕ} (out : Vector UInt8 size) {plain : ℕ} (hi : plain < size)
    (v : UInt8) :
    (out.set plain v hi).toList.take (plain + 1) = out.toList.take plain ++ [v] := by
  have hlen : plain < out.toList.length := by rwa [Vector.length_toList]
  rw [Vector.toList_set, List.take_add_one, List.take_set_of_le (le_refl plain),
    List.getElem?_set_self hlen]
  rfl

/-- `*plainchar = v`, behind what was decoded. -/
theorem store_written {size : ℕ} (out : Vector UInt8 size) (plain : ℕ) (hi : plain < size)
    (v : UInt8) (step : Step) :
    ∃ out', store out plain v = some out' ∧
      Written out' plain (out.toList.take plain) ⟨step, v⟩ := by
  refine ⟨out.set plain v hi, dif_pos hi, take_set_self out hi (le_refl plain) v, fun _ => ?_⟩
  rw [Vector.getElem?_set_self]

/-- `*plainchar++ |= v`: the byte is complete. -/
theorem orStore_written {size plain : ℕ} {out : Vector UInt8 size} {t : DecodeState}
    {done : List UInt8} (h : Written out plain done t) (ht : t.step ≠ .a) (hi : plain < size)
    (v : UInt8) :
    ∃ out', orStore out plain v = some out' ∧
      out'.toList.take (plain + 1) = done ++ [t.plainchar ||| v] := by
  refine ⟨out.set plain (t.plainchar ||| v) hi, ?_, ?_⟩
  · rw [orStore, h.pending ht]
    exact dif_pos hi
  · rw [take_set_succ, h.done]

/-- **One sextet into the buffer**, when there is room for `m` more after it. -/
theorem putFragment_written (behind : Behind) {size plain m : ℕ} {out : Vector UInt8 size}
    {t : DecodeState} {done : List UInt8} (h : Written out plain done t) {c : UInt8}
    (hc : ¬ 128 ≤ base64DecodeValue behind c)
    (hroom : 3 * (t.step.index + (m + 1)) / 4 + plain < size + 3 * t.step.index / 4) :
    ∃ out', putFragment out plain (base64DecodeValue behind c) t.step =
        some (out', plain + ((decoder behind).step t c).1.length) ∧
      Written out' (plain + ((decoder behind).step t c).1.length)
        (done ++ ((decoder behind).step t c).1) ((decoder behind).step t c).2 ∧
      ((decoder behind).step t c).2.step = t.step.next ∧
      3 * (t.step.next.index + m) / 4 + (plain + ((decoder behind).step t c).1.length) <
        size + 3 * t.step.next.index / 4 := by
  obtain ⟨step, plainchar⟩ := t
  generalize hf : base64DecodeValue behind c = f at hc
  cases step with
  | a =>
    simp only [Step.index, Step.next, decoder, hf, if_neg hc] at hroom ⊢
    obtain ⟨out', hstore, hout'⟩ := store_written out plain (by omega)
      ((f &&& 0x3f) <<< 2) .b
    refine ⟨out', by simp [putFragment, hstore], ?_, trivial, by simp; omega⟩
    rw [h.done] at hout'
    simpa using hout'
  | b =>
    simp only [Step.index, Step.next, decoder, hf, if_neg hc] at hroom ⊢
    obtain ⟨out₁, hor, hout₁⟩ := orStore_written h (by simp) (by omega) ((f &&& 0x30) >>> 4)
    obtain ⟨out', hstore, hout'⟩ := store_written out₁ (plain + 1) (by omega)
      ((f &&& 0x0f) <<< 4) .c
    rw [hout₁] at hout'
    exact ⟨out', by simp [putFragment, hor, hstore], hout', trivial, by simp; omega⟩
  | c =>
    simp only [Step.index, Step.next, decoder, hf, if_neg hc] at hroom ⊢
    obtain ⟨out₁, hor, hout₁⟩ := orStore_written h (by simp) (by omega) ((f &&& 0x3c) >>> 2)
    obtain ⟨out', hstore, hout'⟩ := store_written out₁ (plain + 1) (by omega)
      ((f &&& 0x03) <<< 6) .d
    rw [hout₁] at hout'
    exact ⟨out', by simp [putFragment, hor, hstore], hout', trivial, by simp; omega⟩
  | d =>
    simp only [Step.index, Step.next, decoder, hf, if_neg hc] at hroom ⊢
    obtain ⟨out', hor, hout'⟩ := orStore_written h (by simp) (by omega) (f &&& 0x3f)
    refine ⟨out', by simp [putFragment, hor], ⟨hout', fun h => absurd rfl h⟩, trivial,
      by simp; omega⟩
/-- **The loop into the buffer**: the machine's bytes, and its state but for a byte that is not
read again. -/
theorem decodeLoop_written (behind : Behind) {size : ℕ} (code : List UInt8) :
    ∀ {plain : ℕ} {out : Vector UInt8 size} {t : DecodeState} {done : List UInt8},
      Written out plain done t →
      3 * (t.step.index + sextets behind code) / 4 + plain < size + 3 * t.step.index / 4 →
      ∃ out', decodeLoop behind out plain t.step code =
          some (plain + ((decoder behind).run t code).1.length, out',
            ⟨((decoder behind).run t code).2.step,
              out'[plain + ((decoder behind).run t code).1.length]?.getD behind.buffer⟩) ∧
        Written out' (plain + ((decoder behind).run t code).1.length)
          (done ++ ((decoder behind).run t code).1) ((decoder behind).run t code).2 := by
  induction code with
  | nil =>
    intro plain out t done h _
    refine ⟨out, rfl, ?_⟩
    simpa using h
  | cons c code ih =>
    intro plain out t done h hroom
    rw [sextets_cons] at hroom
    by_cases hc : 128 ≤ base64DecodeValue behind c
    · have hskip : (decoder behind).step t c = ([], t) := if_pos hc
      rw [if_pos hc] at hroom
      rw [decodeLoop]
      simp only [if_pos hc, Transducer.run_cons, hskip, List.nil_append]
      exact ih h hroom
    · rw [if_neg hc] at hroom
      obtain ⟨out₁, hput, h₁, hnext, hroom₁⟩ := putFragment_written behind h hc hroom
      rw [← hnext] at hroom₁
      obtain ⟨out', hloop, h'⟩ := ih h₁ hroom₁
      refine ⟨out', ?_, ?_⟩
      · rw [decodeLoop]
        simp only [if_neg hc, hput]
        rw [hnext] at hloop
        simp only [Transducer.run_cons, List.length_append, ← Nat.add_assoc]
        exact hloop
      · simp only [Transducer.run_cons, List.length_append, ← Nat.add_assoc, ← List.append_assoc]
        exact h'

/-- A sextet moves the decoder on by one label; from the last it starts again, with three bytes more
than at the first. -/
theorem decoder_sextet (behind : Behind) (t : DecodeState) {c : UInt8}
    (hc : ¬ 128 ≤ base64DecodeValue behind c) :
    ((decoder behind).step t c).2.step = t.step.next ∧
      ∀ m, ((decoder behind).step t c).1.length + 3 * t.step.index / 4 +
        3 * (t.step.next.index + m) / 4 =
          3 * (t.step.index + 1 + m) / 4 + 3 * t.step.next.index / 4 := by
  obtain ⟨step, plainchar⟩ := t
  cases step <;> simp [decoder, hc, Step.next, Step.index] <;> omega

/-- **How much is decoded**: three bytes of four sextets. -/
theorem decoder_length (behind : Behind) (code : List UInt8) : ∀ t : DecodeState,
    ((decoder behind).run t code).1.length + 3 * t.step.index / 4 =
        3 * (t.step.index + sextets behind code) / 4 ∧
      ((decoder behind).run t code).2.step.index = (t.step.index + sextets behind code) % 4 := by
  induction code with
  | nil =>
    intro t
    simp only [Transducer.run_nil, sextets_nil, Nat.add_zero, List.length_nil, Nat.zero_add,
      true_and]
    cases t.step <;> rfl
  | cons c code ih =>
    intro t
    rw [sextets_cons]
    by_cases hc : 128 ≤ base64DecodeValue behind c
    · have hskip : (decoder behind).step t c = ([], t) := if_pos hc
      rw [if_pos hc, Nat.add_zero]
      simp only [Transducer.run_cons, hskip, List.nil_append]
      exact ih t
    · obtain ⟨hnext, hcount⟩ := decoder_sextet behind t hc
      obtain ⟨hlen, hindex⟩ := ih ((decoder behind).step t c).2
      have hmod := Step.index_next t.step (m := t.step.index) (by cases t.step <;> rfl)
      rw [if_neg hc]
      rw [hnext] at hlen hindex
      simp only [Transducer.run_cons, List.length_append]
      have h := hcount (sextets behind code)
      exact ⟨by omega, by omega⟩

/-! ## Texts in pieces -/

/-- A piece of a text and the buffer it is decoded into. -/
structure Chunk where
  code : List UInt8
  size : ℕ
  out : Vector UInt8 size

/-- The buffer is large enough for any state the decoder is in. -/
def Chunk.roomy (chunk : Chunk) : Bool := 3 * (chunk.code.length + 1) / 4 < chunk.size

/-- `base64_decode_block` for one piece after the other: the bytes of all buffers. -/
def decodeChunks (behind : Behind) : DecodeState → List Chunk → Option (List UInt8)
  | _, [] => some []
  | state, chunk :: chunks => do
    let r ← base64DecodeBlock behind chunk.code chunk.out state
    let rest ← decodeChunks behind r.2.2 chunks
    return r.2.1.toList.take r.1 ++ rest

/-- `base64_encode_block` for one piece after the other, and `base64_encode_blockend`. -/
def encodePieces : EncodeState → List (List UInt8) → Option (List UInt8)
  | state, [] => base64EncodeBlockend state
  | state, piece :: pieces => do
    let r ← base64EncodeBlock piece state
    let rest ← encodePieces r.2 pieces
    return r.1 ++ rest

/-- The decoder over several buffers writes what the machine writes for the whole text. -/
theorem decodeChunks_eq (behind : Behind) (chunks : List Chunk) :
    ∀ {s t : DecodeState}, s.step = t.step → (t.step ≠ .a → s.plainchar = t.plainchar) →
      (∀ chunk ∈ chunks, chunk.roomy) →
      decodeChunks behind s chunks =
        some ((decoder behind).run t (chunks.map Chunk.code).flatten).1 := by
  induction chunks with
  | nil =>
    intro s t _ _ _
    rfl
  | cons chunk chunks ih =>
    intro s t hstep hplain hroomy
    have hroom : 3 * (chunk.code.length + 1) / 4 < chunk.size := by
      simpa [Chunk.roomy] using hroomy chunk List.mem_cons_self
    have hsize : 0 < chunk.size := by omega
    obtain ⟨out₀, hstore, h₀⟩ := store_written chunk.out 0 hsize
      s.plainchar t.step
    have h : Written out₀ 0 [] t :=
      ⟨by simp, fun ht => (h₀.pending ht).trans (by rw [hplain ht])⟩
    have hcount : sextets behind chunk.code ≤ chunk.code.length := List.countP_le_length
    have hindex : 3 * (t.step.index + sextets behind chunk.code) / 4 + 0 <
        chunk.size + 3 * t.step.index / 4 := by
      cases t.step <;> simp only [Step.index] <;> omega
    obtain ⟨out', hloop, h'⟩ := decodeLoop_written behind chunk.code h hindex
    have hblock : base64DecodeBlock behind chunk.code chunk.out s =
        decodeLoop behind out₀ 0 t.step chunk.code := by
      rw [base64DecodeBlock, hstore, hstep]
      rfl
    rw [decodeChunks, hblock, hloop]
    simp only [Option.bind_eq_bind, Option.bind_some]
    have hrest := ih
      (s := ⟨_, out'[0 + ((decoder behind).run t chunk.code).1.length]?.getD behind.buffer⟩)
      (t := ((decoder behind).run t chunk.code).2) rfl (fun ht => by rw [h'.pending ht]; rfl)
      fun c hc => hroomy c (List.mem_cons_of_mem _ hc)
    rw [hrest, List.map_cons, List.flatten_cons, Transducer.run_append, h'.done]
    rfl

/-- The encoder over several pieces writes what the machine writes for all of them, and the end. -/
theorem encodePieces_eq (pieces : List (List UInt8)) : ∀ {s : EncodeState}, s.result < 64 →
    encodePieces s pieces =
      (base64EncodeBlockend (encoder.run s pieces.flatten).2).map
        ((encoder.run s pieces.flatten).1 ++ ·) := by
  induction pieces with
  | nil =>
    intro s _
    simp [encodePieces]
  | cons piece pieces ih =>
    intro s hs
    obtain ⟨hloop, hlt⟩ := encodeLoop_eq piece hs
    rw [encodePieces, base64EncodeBlock, hloop]
    simp only [Option.bind_eq_bind, Option.bind_some]
    rw [ih hlt, List.flatten_cons, Transducer.run_append]
    cases base64EncodeBlockend (encoder.run (encoder.run s piece).2 pieces.flatten).2 with
    | none => rfl
    | some text => simp

/-- **Base64 loses nothing**: whatever pieces the bytes are encoded in, the encoder reads only its
table, and whatever pieces its text is decoded in, into buffers with room for them, the bytes that
come out are those that went in. -/
theorem base64_round_trip (pieces : List (List UInt8)) :
    ∃ text, encodePieces base64InitEncodestate pieces = some text ∧
      ∀ (behind : Behind) (chunks : List Chunk), (chunks.map Chunk.code).flatten = text →
        (∀ chunk ∈ chunks, chunk.roomy) →
        decodeChunks behind base64InitDecodestate chunks = some pieces.flatten := by
  obtain ⟨h₀, hheld, hout⟩ := (decoder_undoes ⟨0, 0⟩).run pieces.flatten
    (Held.none 0 0 base64InitDecodestate.plainchar)
  obtain ⟨rest, hend, -⟩ := decoder_blockend ⟨0, 0⟩ hheld
  refine ⟨_, by rw [encodePieces_eq pieces (by decide), base64InitEncodestate, hend]; rfl, ?_⟩
  intro behind chunks htext hroomy
  obtain ⟨h, hheld', hout'⟩ := (decoder_undoes behind).run pieces.flatten
    (Held.none 0 0 base64InitDecodestate.plainchar)
  obtain ⟨rest', hend', hrest, -⟩ := decoder_blockend behind hheld'
  obtain rfl : rest' = rest := Option.some.inj (hend'.symm.trans hend)
  rw [decodeChunks_eq behind chunks (t := base64InitDecodestate) rfl (fun _ => rfl) hroomy, htext,
    Transducer.run_append]
  have hback : ((decoder behind).run base64InitDecodestate
      (encoder.run base64InitEncodestate pieces.flatten).1).1 ++
      ((decoder behind).run ((decoder behind).run base64InitDecodestate
        (encoder.run base64InitEncodestate pieces.flatten).1).2 rest').1 = pieces.flatten :=
    (congrArg _ hrest).trans hout'
  exact congrArg some hback

/-- Four bytes in two pieces, and their text in two others. -/
theorem base64_round_trip_foob :
    decodeChunks ⟨0, 0⟩ base64InitDecodestate
      [⟨CStr.ascii "Zm9", 4, Vector.replicate 4 0⟩,
        ⟨CStr.ascii "vYg==\n", 6, Vector.replicate 6 0⟩] =
      some (CStr.ascii "foob") := by
  obtain ⟨text, hencode, hdecode⟩ := base64_round_trip [CStr.ascii "f", CStr.ascii "oob"]
  obtain rfl : text = CStr.ascii "Zm9vYg==\n" :=
    Option.some.inj (hencode.symm.trans (by decide +kernel))
  exact hdecode ⟨0, 0⟩ _ (by decide) (by decide)

end DoubleDecker
