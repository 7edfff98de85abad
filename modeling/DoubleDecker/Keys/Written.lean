import DoubleDecker.Keys.Complete
import DoubleDecker.Keys.Encode

/-!
# Keys/Written — the keys in a file, and the files `ddkeygen` writes

A key of 32 bytes is 43 letters, the last of them with two bits of the key; `base64_encode_blockend`
writes that last one.  A text with these letters is read as the key, whatever else stands between
them (`decodeKey_of_keyText`).  `ddkeygen` does not call `base64_encode_blockend`, and its files are
never read (`ddkeygen_refused`).
-/

namespace DoubleDecker

/-! ## The text of a key -/

/-- `base64_encode_block` and `base64_encode_blockend`. -/
def base64Text (key : List UInt8) : List UInt8 :=
  (encodePieces base64InitEncodestate [key]).getD []

/-- The text has the letters of the key, in their order. -/
structure KeyText (key s : List UInt8) : Prop where
  brace_free : 123 ∉ s
  letters : s.filter isBase64 = (base64Text key).filter isBase64

theorem isBase64_letter {v : UInt8} (hv : v < 64) : isBase64 (letter v) = true := by
  have hall : ∀ n < 64, isBase64 (letter (UInt8.ofNat n)) = true := by decide +kernel
  have h := hall v.toNat hv
  rwa [UInt8.ofNat_toNat] at h

/-- The encoder writes letters and ends of lines. -/
theorem encoder_chars (plain : List UInt8) : ∀ {s : EncodeState}, s.result < 64 →
    ∀ c ∈ (encoder.run s plain).1, isBase64 c = true ∨ c = 10 := by
  induction plain with
  | nil => exact fun _ _ hc => absurd hc List.not_mem_nil
  | cons x plain ih =>
    rintro ⟨step, result, n⟩ hs c hc
    obtain ⟨h₁, h₂, h₃, h₄, h₅, h₆⟩ := sextet_lt x
    rw [Transducer.run_cons, List.mem_append] at hc
    cases step with
    | a =>
      refine hc.elim (fun hc => Or.inl ?_) (ih h₂ c)
      rw [List.mem_singleton.mp hc]
      exact isBase64_letter h₁
    | b =>
      refine hc.elim (fun hc => Or.inl ?_) (ih h₄ c)
      rw [List.mem_singleton.mp hc]
      exact isBase64_letter (or_lt_64 hs h₃)
    | c =>
      have hpair := And.intro (isBase64_letter (or_lt_64 hs h₅)) (isBase64_letter h₆)
      by_cases hn : n + 1 = charsPerLine / 4
      · simp only [encoder, if_pos hn, List.mem_cons, List.not_mem_nil, or_false] at hc
        obtain (rfl | rfl | rfl) | hc := hc
        · exact Or.inl hpair.1
        · exact Or.inl hpair.2
        · exact Or.inr rfl
        · exact ih (s := ⟨.a, x &&& 0x3f, 0⟩) h₆ c hc
      · simp only [encoder, if_neg hn, List.mem_cons, List.not_mem_nil, or_false] at hc
        obtain (rfl | rfl) | hc := hc
        · exact Or.inl hpair.1
        · exact Or.inl hpair.2
        · exact ih (s := ⟨.a, x &&& 0x3f, n + 1⟩) h₆ c hc

theorem not_mem_encoder {c : UInt8} (hletter : isBase64 c = false) (hline : c ≠ 10)
    (plain : List UInt8) : c ∉ (encoder.run base64InitEncodestate plain).1 := fun hc => by
  obtain h | h := encoder_chars plain (s := base64InitEncodestate) (by decide) c hc
  · rw [hletter] at h
    cases h
  · exact hline h

/-- The decoder reads the letters of a text only. -/
theorem decoder_filter (behind : Behind) {s : List UInt8} (hs : 123 ∉ s) : ∀ t : DecodeState,
    (decoder behind).run t (s.filter isBase64) = (decoder behind).run t s := by
  induction s with
  | nil => exact fun _ => rfl
  | cons c s ih =>
    intro t
    rw [List.mem_cons, not_or] at hs
    have hvalid := base64DecodeValue_valid behind (Ne.symm hs.1)
    by_cases hc : isBase64 c = true
    · rw [List.filter_cons_of_pos hc, Transducer.run_cons, Transducer.run_cons, ih hs.2]
    · have hskip : (decoder behind).step t c = ([], t) := if_pos (not_not.mp (hvalid.not.mpr hc))
      rw [List.filter_cons_of_neg hc, Transducer.run_cons, hskip, ih hs.2]
      rfl

/-- `base64_encode_blockend` writes no `{`. -/
theorem brace_free_blockend {s : EncodeState} (hs : s.result < 64) {t : List UInt8}
    (ht : base64EncodeBlockend s = some t) : 123 ∉ t := by
  obtain ⟨step, result, n⟩ := s
  have hletter : 123 ≠ letter result := fun h => by
    have hvalid := isBase64_letter hs
    rw [← h] at hvalid
    revert hvalid
    decide
  cases step with
  | a =>
    cases ht
    decide
  | b =>
    rw [base64EncodeBlockend] at ht
    simp only [base64EncodeValue_letter hs] at ht
    cases ht
    simp [hletter]
  | c =>
    rw [base64EncodeBlockend] at ht
    simp only [base64EncodeValue_letter hs] at ht
    cases ht
    simp [hletter]

/-- **The text of a key is decoded to the key**, and the byte behind it to 0. -/
theorem decoder_base64Text (behind : Behind) (key : List UInt8) :
    123 ∉ base64Text key ∧
      ((decoder behind).run base64InitDecodestate (base64Text key)).1 = key ∧
      (((decoder behind).run base64InitDecodestate (base64Text key)).2.step ≠ .a →
        ((decoder behind).run base64InitDecodestate (base64Text key)).2.plainchar = 0) := by
  obtain ⟨h, hheld, hout⟩ := (decoder_undoes behind).run key
    (Held.none 0 0 base64InitDecodestate.plainchar)
  obtain ⟨rest, hend, hrest, hplain⟩ := decoder_blockend behind hheld
  have htext : base64Text key = (encoder.run base64InitEncodestate key).1 ++ rest := by
    have hflat : [key].flatten = key := List.flatten_singleton
    rw [base64Text, encodePieces_eq [key] (by decide), hflat, base64InitEncodestate, hend]
    rfl
  rw [htext, Transducer.run_append, List.mem_append, not_or]
  refine ⟨⟨not_mem_encoder (by decide) (by decide) key, ?_⟩, (congrArg _ hrest).trans hout, hplain⟩
  exact brace_free_blockend (encodeLoop_eq key (s := base64InitEncodestate) (by decide)).2 hend

/-- `base64_decode_block` at its start, into the memory of a key. -/
theorem decodeKey_written (env : KeyEnv) {s : List UInt8} (hshort : sextets env.behind s < 44)
    (out : KeyBuffer) :
    ∃ out' : KeyBuffer, decodeKey env s out =
        .ok (((decoder env.behind).run base64InitDecodestate s).1.length, out') ∧
      Written out' ((decoder env.behind).run base64InitDecodestate s).1.length
        ((decoder env.behind).run base64InitDecodestate s).1
        ((decoder env.behind).run base64InitDecodestate s).2 := by
  obtain ⟨out₀, hstore, h₀⟩ := store_written out 0 (by decide)
    base64InitDecodestate.plainchar base64InitDecodestate.step
  have h : Written out₀ 0 [] base64InitDecodestate := ⟨by simp, fun ht => absurd rfl ht⟩
  have hroom : 3 * (base64InitDecodestate.step.index + sextets env.behind s) / 4 + 0 <
      33 + 3 * base64InitDecodestate.step.index / 4 := by
    have hindex : base64InitDecodestate.step.index = 0 := rfl
    omega
  obtain ⟨out', hloop, h'⟩ := decodeLoop_written env.behind s h hroom
  rw [Nat.zero_add] at h'
  refine ⟨out', ?_, h'⟩
  have hblock : base64DecodeBlock env.behind s out base64InitDecodestate =
      decodeLoop env.behind out₀ 0 base64InitDecodestate.step s := by
    rw [base64DecodeBlock, hstore]
    rfl
  rw [decodeKey, hblock, hloop]
  simp only [Nat.zero_add]

/-- A text with the letters of a key has 43 sextets. -/
theorem KeyText.sextets_eq {behind : Behind} {key : Vector UInt8 32} {s : List UInt8}
    (h : KeyText key.toList s) : sextets behind s = 43 := by
  obtain ⟨hbrace, hkey, -⟩ := decoder_base64Text behind key.toList
  obtain ⟨hlen, -⟩ := decoder_length behind s base64InitDecodestate
  rw [← decoder_filter behind h.brace_free, h.letters, decoder_filter behind hbrace, hkey,
    Vector.length_toList] at hlen
  have hindex : base64InitDecodestate.step.index = 0 := rfl
  omega

/-- **A text with the letters of a key is read as the key.** -/
theorem decodeKey_of_keyText (env : KeyEnv) {key : Vector UInt8 32} {s : List UInt8}
    (h : KeyText key.toList s) (out : KeyBuffer) : decodeKey env s out = .ok (32, key.push 0) := by
  obtain ⟨hbrace, hkey, hplain⟩ := decoder_base64Text env.behind key.toList
  have hlen : sextets env.behind s = 43 := h.sextets_eq
  obtain ⟨-, hindex⟩ := decoder_length env.behind s base64InitDecodestate
  obtain ⟨out', hdecode, hout⟩ := decodeKey_written env (s := s) (by omega) out
  rw [hlen] at hindex
  rw [← decoder_filter env.behind h.brace_free, h.letters,
    decoder_filter env.behind hbrace] at hdecode hout hindex
  rw [hkey, Vector.length_toList] at hdecode hout
  have hstep :
      ((decoder env.behind).run base64InitDecodestate (base64Text key.toList)).2.step ≠ .a :=
    fun ha => by rw [ha] at hindex; cases hindex
  have hlast : out'[32]? = some 0 := (hout.pending hstep).trans (congrArg some (hplain hstep))
  have hlength : out'.toList.length ≤ 32 + 1 := (Vector.length_toList).le
  have hwhole : out'.toList = (key.push 0).toList :=
    calc out'.toList = out'.toList.take (32 + 1) := (List.take_of_length_le hlength).symm
      _ = out'.toList.take 32 ++ [0] := by
        rw [List.take_add_one, Vector.getElem?_toList, hlast]
        rfl
      _ = (key.push 0).toList := by rw [hout.done, Vector.toList_push]
  rw [hdecode, Vector.toList_inj.mp hwhole]

/-! ## `ddkeygen.c` -/

/-- `base64_init_encodestate` and one `base64_encode_block` into memory of 100 zeros, read as a
string. -/
def ddkeygenText (key : List UInt8) : CStr :=
  CStr.ofBytes (((base64EncodeBlock key base64InitEncodestate).map (·.1)).getD [])

/-- `generate_client_key`: the members of the object it writes, of the keys it makes and those it is
given.  `bin2hex` is `sodium_bin2hex`. -/
def generateClientKey (bin2hex : List UInt8 → CStr)
    (alicePublickey aliceSecretkey brokerPubkey publicPubkey : Vector UInt8 32) : Members :=
  [(text "hash", .string (bin2hex alicePublickey.toList).bytes),
    (text "privkey", .string (ddkeygenText aliceSecretkey.toList).bytes),
    (text "pubkey", .string (ddkeygenText alicePublickey.toList).bytes),
    (text "publicpubkey", .string (ddkeygenText publicPubkey.toList).bytes),
    (text "ddpubkey", .string (ddkeygenText brokerPubkey.toList).bytes)]

/-- What the one `base64_encode_block` wrote is decoded to the key without its last byte. -/
theorem sextets_ddkeygenText (behind : Behind) (key : Vector UInt8 32) :
    sextets behind (ddkeygenText key.toList).bytes = 42 := by
  obtain ⟨h, hheld, hout⟩ := (decoder_undoes behind).run key.toList
    (Held.none 0 0 base64InitDecodestate.plainchar)
  have htext : (ddkeygenText key.toList).bytes =
    (encoder.run base64InitEncodestate key.toList).1 := by
    have hloop := (encodeLoop_eq key.toList (s := base64InitEncodestate) (by decide)).1
    rw [ddkeygenText, base64EncodeBlock, hloop]
    exact CStr.bytes_ofBytes (not_mem_encoder (by decide) (by decide) key.toList)
  obtain ⟨hlen, hindex⟩ := decoder_length behind (encoder.run base64InitEncodestate key.toList).1
    base64InitDecodestate
  have hstart : base64InitDecodestate.step.index = 0 := rfl
  have hback := congrArg List.length hout
  rw [List.length_append, List.nil_append, Vector.length_toList] at hback
  change ((decoder behind).run base64InitDecodestate
    (encoder.run base64InitEncodestate key.toList).1).1.length + h.length = 32 at hback
  have hheldLength : h.length = 1 ∨ h.length = 0 ∧ ((decoder behind).run base64InitDecodestate
      (encoder.run base64InitEncodestate key.toList).1).2.step.index = 0 := hheld.length
  rw [htext]
  omega

/-- **No file of `ddkeygen` is ever read**: `dd_keys_new` returns `NULL` for it, whatever the
keys. -/
theorem ddkeygen_refused (env : KeyEnv) (bin2hex : List UInt8 → CStr)
    (alicePublickey aliceSecretkey brokerPubkey publicPubkey : Vector UInt8 32) :
    stop (ddKeysRead env (generateClientKey bin2hex alicePublickey aliceSecretkey brokerPubkey
      publicPubkey)) = some .null := by
  have hpublic : isPublic (generateClientKey bin2hex alicePublickey aliceSecretkey brokerPubkey
    publicPubkey) = false := rfl
  have hshort : keyCheck env (.string (ddkeygenText aliceSecretkey.toList).bytes) = some .null := by
    have htake : keyText (.string (ddkeygenText aliceSecretkey.toList).bytes) =
      (ddkeygenText aliceSecretkey.toList).bytes := List.take_length
    rw [keyCheck, htake, sextets_ddkeygenText]
    decide
  rw [stop_ddKeysRead, clientCheck, hpublic, if_neg Bool.false_ne_true, generateClientKey,
    List.findSome?_cons, List.findSome?_cons]
  have hhash : keyFieldCheck env
      (text "hash", .string (bin2hex alicePublickey.toList).bytes) = none := rfl
  have hprivkey : keyFieldCheck env
      (text "privkey", .string (ddkeygenText aliceSecretkey.toList).bytes) = some .null := hshort
  rw [hhash, hprivkey]
  rfl

end DoubleDecker
