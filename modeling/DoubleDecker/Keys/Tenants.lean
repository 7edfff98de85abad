import DoubleDecker.Broker.State
import DoubleDecker.Keys.Contents
import DoubleDecker.Library.Carry
import Mathlib.Data.Nat.Digits.Lemmas

/-!
# Keys/Tenants — what is read of a broker's file

The member `dd` has the broker's own keys, every other member a tenant with its name, its public key
and its number, the cookie, in decimal digits.  Of a file that says these, in whatever order,
`read_ddbrokerkeys` returns just them (`readDdbrokerkeys_in`).
-/

namespace DoubleDecker

/-! ## Numbers in digits -/

/-- A number in decimal digits. -/
def decimal (n : ℕ) : List UInt8 :=
  if n = 0 then [48] else (Nat.digits 10 n).reverse.map fun d => UInt8.ofNat (48 + d)

theorem isdigit_digit {d : ℕ} (hd : d < 10) :
    isdigit (UInt8.ofNat (48 + d)) = true ∧ (UInt8.ofNat (48 + d)).toNat = 48 + d := by
  revert d
  decide

/-- A digit is no blank and no sign. -/
theorem isdigit_ne {c : UInt8} (hc : isdigit c = true) :
    isspace c = false ∧ c ≠ 45 ∧ c ≠ 43 ∧ c ≠ 0 := by
  have hall : ∀ n < 256, isdigit (UInt8.ofNat n) = true → isspace (UInt8.ofNat n) = false ∧
      UInt8.ofNat n ≠ 45 ∧ UInt8.ofNat n ≠ 43 ∧ UInt8.ofNat n ≠ 0 := by decide +kernel
  have h := hall c.toNat c.toNat_lt
  rw [UInt8.ofNat_toNat] at h
  exact h hc

theorem decimal_ne_nil (n : ℕ) : decimal n ≠ [] := by
  rw [decimal]
  split_ifs with h
  · exact List.cons_ne_nil _ _
  · simpa using Nat.digits_ne_nil_iff_ne_zero.mpr h

theorem isdigit_decimal (n : ℕ) : ∀ c ∈ decimal n, isdigit c = true := by
  intro c hc
  rw [decimal] at hc
  split_ifs at hc with h
  · rw [List.mem_singleton.mp hc]
    decide
  · obtain ⟨d, hd, rfl⟩ := List.mem_map.mp hc
    exact (isdigit_digit (Nat.digits_lt_base (by decide) (List.mem_reverse.mp hd))).1

/-- The value of digits, as `strtoull` adds them up. -/
theorem foldl_decimal (n : ℕ) :
    (decimal n).foldl (fun n c => 10 * n + (c.toNat - 48)) 0 = n := by
  rw [decimal]
  split_ifs with h
  · rw [h]
    rfl
  · rw [List.foldl_map, List.foldl_reverse]
    have hfold : ∀ l : List ℕ, (∀ d ∈ l, d < 10) →
        l.foldr (fun d n => 10 * n + ((UInt8.ofNat (48 + d)).toNat - 48)) 0 =
          Nat.ofDigits 10 l := by
      intro l
      induction l with
      | nil => exact fun _ => rfl
      | cons d l ih =>
        intro hl
        obtain ⟨hd, hl⟩ := List.forall_mem_cons.mp hl
        rw [List.foldr_cons, ih hl, Nat.ofDigits_cons, (isdigit_digit hd).2]
        omega
    rw [hfold _ fun d hd => Nat.digits_lt_base (by decide) hd, Nat.ofDigits_digits]

/-- **`strtoull` reads a number in digits.** -/
theorem strtoull_decimal (n : UInt64) : strtoull (CStr.ofBytes (decimal n.toNat)) = n := by
  have hdigits := isdigit_decimal n.toNat
  have hnul : 0 ∉ decimal n.toNat := fun h => (isdigit_ne (hdigits 0 h)).2.2.2 rfl
  have hsubject : strtoullSubject (CStr.ofBytes (decimal n.toNat)) = (false, decimal n.toNat) := by
    have htake : (decimal n.toNat).takeWhile isdigit = decimal n.toNat :=
      List.takeWhile_eq_self_iff.mpr hdigits
    rw [strtoullSubject, CStr.bytes_ofBytes hnul]
    obtain ⟨c, l, hl⟩ := List.exists_cons_of_ne_nil (decimal_ne_nil n.toNat)
    obtain ⟨hspace, hminus, hplus, -⟩ := isdigit_ne (hdigits c (hl ▸ List.mem_cons_self))
    have hdrop : (decimal n.toNat).dropWhile isspace = decimal n.toNat := by
      rw [hl, List.dropWhile_cons_of_neg (by rw [hspace]; exact Bool.false_ne_true)]
    rw [hdrop]
    rw [hl] at htake ⊢
    split
    · next heq => exact absurd (List.cons.inj heq).1 hminus
    · next heq => exact absurd (List.cons.inj heq).1 hplus
    · rw [htake]
  rw [strtoull, hsubject]
  simp only [foldl_decimal]
  rw [if_neg (Nat.not_le.mpr n.toNat_lt), if_neg Bool.false_ne_true, UInt64.ofNat_toNat]

/-! ## Files that say keys -/

/-- A number in digits. -/
def SaysNumber (n : UInt64) (val : Json) : Prop := val.getString = some (decimal n.toNat)

/-- A tenant, by the hash its keys are filed under. -/
structure TenantFile where
  hash : CStr
  name : CStr
  cookie : UInt64
  pubkey : Vector UInt8 32

/-- The fields say the tenant. -/
structure TenantFile.In (tenant : TenantFile) (fields : Members) : Prop where
  r : Has "r" (· = .string tenant.name.bytes) fields
  R : Has "R" (SaysNumber tenant.cookie) fields
  pubkey : Has "pubkey" (Spells tenant.pubkey) fields

/-- The contents of a broker's file; `hash` is the text of the public key. -/
structure BrokerFile where
  privkey : Vector UInt8 32
  pubkey : Vector UInt8 32
  hash : CStr
  cookie : UInt64
  tenants : List TenantFile

/-- The fields of `dd` say the broker's own keys. -/
structure BrokerFile.Own (contents : BrokerFile) (fields : Members) : Prop where
  privkey : Has "privkey" (Spells contents.privkey) fields
  pubkey : Has "pubkey" (fun val => Spells contents.pubkey val ∧
    val.getString.map CStr.ofBytes = some contents.hash) fields
  R : Has "R" (SaysNumber contents.cookie) fields

/-- **The file says these keys.** -/
structure BrokerFile.In (contents : BrokerFile) (file : Members) : Prop where
  dd : Has "dd" (IsObject contents.Own) file
  tenants : List.Forall₂ (fun tenant member => member.1 = tenant.hash ∧ IsObject tenant.In member.2)
    contents.tenants (others "dd" file)

/-! ## The tenants -/

/-- A tenant after some fields. -/
def TenantFile.read (tenant : TenantFile) (boxk : List UInt8) (fields : Members) : ReadTenant where
  name := if seen "r" fields then some tenant.name else none
  cookie := if seen "R" fields then tenant.cookie else 0
  boxk := if seen "pubkey" fields then some boxk else none

/-- A number that is read. -/
theorem SaysNumber.cstr {n : UInt64} {val : Json} (h : SaysNumber n val) :
    ∃ s, val.cstr = .ok s ∧ strtoull s = n := by
  refine ⟨CStr.ofBytes (decimal n.toNat), ?_, strtoull_decimal n⟩
  rw [Json.cstr, show val.getString = _ from h]

/-- **One field of a tenant.** -/
theorem readTenantField_in (env : KeyEnv) {tenant : TenantFile} {sk : Vector UInt8 32}
    {boxk : List UInt8} (hbox : env.beforenm (tenant.pubkey.push 0) (sk.push 0) = some boxk)
    {fields : Members} (h : tenant.In fields) {field : CStr × Json} (hmem : field ∈ fields)
    (before : Members) :
    readTenantField env tenant.hash (some (sk.push 0)) (tenant.read boxk before) field =
      .ok (tenant.read boxk (before ++ [field])) := by
  rw [readTenantField]
  split_ifs with h₁ h₂ h₃
  · rw [checkedKey_spells env (h.pubkey.value hmem h₁)]
    simp +decide [TenantFile.read, seen_concat, h₁, bind, Except.bind, pure, Except.pure,
      cryptoBoxBeforenm, hbox]
  · rw [h.r.value hmem h₂]
    simp +decide [TenantFile.read, seen_concat, h₂, bind, Except.bind, pure, Except.pure,
      Json.cstr, Json.getString]
  · obtain ⟨s, hs, hnumber⟩ := (h.R.value hmem h₃).cstr
    rw [hs]
    simp +decide [TenantFile.read, seen_concat, h₃, bind, Except.bind, pure, Except.pure, hnumber]
  · simp [TenantFile.read, seen_concat, h₁, h₂, h₃, pure, Except.pure]

/-- The tables with one more tenant. -/
def addTenant (boxk : Vector UInt8 32 → List UInt8) (ddkeys : ReadBrokerKeys)
    (tenant : TenantFile) : ReadBrokerKeys :=
  { ddkeys with
    tenants := ddkeys.tenants ++ [tenant.name]
    tenantkeys := zhashInsert ddkeys.tenantkeys tenant.hash
      ⟨some tenant.name, tenant.cookie, some (boxk tenant.pubkey)⟩ }

/-- **All tenants**, in file order, and no member that is not one. -/
theorem readTenants_in (env : KeyEnv) {sk : Vector UInt8 32} {boxk : Vector UInt8 32 → List UInt8}
    (file : Members) : ∀ {tenants : List TenantFile} {ddkeys : ReadBrokerKeys},
      ddkeys.privkey = some (sk.push 0) →
      (∀ pk ∈ tenants.map TenantFile.pubkey,
        env.beforenm (pk.push 0) (sk.push 0) = some (boxk pk)) →
      List.Forall₂ (fun tenant member => member.1 = tenant.hash ∧ IsObject tenant.In member.2)
        tenants (others "dd" file) →
      file.foldlM (readTenantMember env) ddkeys = .ok (tenants.foldl (addTenant boxk) ddkeys) := by
  induction file with
  | nil =>
    intro tenants ddkeys _ _ h
    cases h
    rfl
  | cons member file ih =>
    rintro tenants ⟨privkey, pubkey, ddboxk, ddhash, cookie, names, tenantkeys⟩ hsk hbox h
    obtain rfl : privkey = some (sk.push 0) := hsk
    rw [List.foldlM_cons, readTenantMember]
    by_cases hname : member.1 = text "dd"
    · rw [others, List.filter_cons_of_neg (by simpa using hname)] at h
      rw [if_neg (not_not.mpr hname)]
      exact ih rfl hbox h
    · rw [others, List.filter_cons_of_pos (by simpa using hname)] at h
      rw [if_pos hname]
      cases h with
      | cons hmember hrest =>
        rename_i tenant tenants
        obtain ⟨hhash, fields, printed, hval, hin⟩ := hmember
        have hread : fields.foldlM (readTenantField env tenant.hash (some (sk.push 0)))
            (tenant.read (boxk tenant.pubkey) []) =
            .ok (tenant.read (boxk tenant.pubkey) ([] ++ fields)) :=
          foldlM_eq_ok (tenant.read (boxk tenant.pubkey)) [] fun _ _ _ hsplit =>
            readTenantField_in env (hbox _ List.mem_cons_self) hin
              (hsplit ▸ List.mem_append_right _ List.mem_cons_self) _
        have hall : tenant.read (boxk tenant.pubkey) fields =
            ⟨some tenant.name, tenant.cookie, some (boxk tenant.pubkey)⟩ := by
          simp [TenantFile.read, hin.r.seen, hin.R.seen, hin.pubkey.seen]
        rw [List.nil_append, hall] at hread
        rw [hval, Json.foreach, hhash]
        change ((fields.foldlM (readTenantField env tenant.hash (some (sk.push 0)))
          ⟨none, 0, none⟩ >>= _) >>= _) = _
        have hempty : tenant.read (boxk tenant.pubkey) [] = ⟨none, 0, none⟩ := rfl
        rw [← hempty, hread]
        exact ih rfl (fun pk hpk => hbox pk (List.mem_cons_of_mem _ hpk)) hrest

/-! ## The broker's own keys -/

/-- The broker's keys after some fields of `dd`. -/
def BrokerFile.read (contents : BrokerFile) (fields : Members) : ReadBrokerKeys where
  privkey := seenKey "privkey" contents.privkey fields
  pubkey := seenKey "pubkey" contents.pubkey fields
  ddboxk := none
  hash := if seen "pubkey" fields then some contents.hash else none
  cookie := if seen "R" fields then contents.cookie else 0
  tenants := []
  tenantkeys := []

/-- **One field of `dd`.** -/
theorem readDdField_in (env : KeyEnv) {contents : BrokerFile} {fields : Members}
    (h : contents.Own fields) {field : CStr × Json} (hmem : field ∈ fields) (before : Members) :
    readDdField env (contents.read before) field = .ok (contents.read (before ++ [field])) := by
  rw [readDdField]
  split_ifs with h₁ h₂ h₃
  · rw [checkedKey_spells env (h.privkey.value hmem h₁)]
    simp +decide [BrokerFile.read, seenKey, seen_concat, h₁, bind, Except.bind, pure, Except.pure]
  · obtain ⟨hkey, hhash⟩ := h.pubkey.value hmem h₂
    have hcstr : field.2.cstr = .ok contents.hash := by
      obtain ⟨s, hs, hs'⟩ := Option.map_eq_some_iff.mp hhash
      rw [Json.cstr, hs, ← hs']
    rw [checkedKey_spells env hkey, hcstr]
    simp +decide [BrokerFile.read, seenKey, seen_concat, h₂, bind, Except.bind, pure, Except.pure]
  · obtain ⟨s, hs, hnumber⟩ := (h.R.value hmem h₃).cstr
    rw [hs]
    simp +decide [BrokerFile.read, seenKey, seen_concat, h₃, bind, Except.bind, pure, Except.pure,
      hnumber]
  · simp [BrokerFile.read, seenKey, seen_concat, h₁, h₂, h₃, pure, Except.pure]

/-- A member, in the pass that finds `dd`. -/
theorem readDdMember_in (env : KeyEnv) {contents : BrokerFile} {member : CStr × Json}
    (h : member.1 = text "dd" → IsObject contents.Own member.2) (before : Members) :
    readDdMember env (contents.read (fieldsOf (text "dd") before)) member =
      .ok (contents.read (fieldsOf (text "dd") (before ++ [member]))) := by
  rw [readDdMember, fieldsOf_append]
  split_ifs with hname
  · obtain ⟨fields, printed, hval, hin⟩ := h hname
    have hone : fieldsOf (text "dd") [member] = fields := by
      rw [fieldsOf, values_single, if_pos hname, hval]
      exact List.flatMap_singleton _ _
    rw [hval, hone]
    exact foldlM_eq_ok contents.read _ fun _ _ _ hsplit =>
      readDdField_in env hin (hsplit ▸ List.mem_append_right _ List.mem_cons_self) _
  · have hnone : fieldsOf (text "dd") [member] = [] := by
      rw [fieldsOf, values_single, if_neg hname, List.flatMap_nil]
    rw [hnone, List.append_nil]
    rfl

/-- The keys a broker's file says, as they are read. -/
def BrokerFile.keys (boxk : Vector UInt8 32 → List UInt8) (contents : BrokerFile) :
    ReadBrokerKeys :=
  contents.tenants.foldl (addTenant boxk)
    ⟨some (contents.privkey.push 0), some (contents.pubkey.push 0), some (boxk contents.pubkey),
      some contents.hash, contents.cookie, [], []⟩

/-- The public keys of a broker's file, each of which is shared with its secret key. -/
def BrokerFile.pubkeys (contents : BrokerFile) : List (Vector UInt8 32) :=
  contents.pubkey :: contents.tenants.map TenantFile.pubkey

/-- **What `read_ddbrokerkeys` returns** for a file that says some keys. -/
theorem readDdbrokerkeys_in (env : KeyEnv) {contents : BrokerFile}
    {boxk : Vector UInt8 32 → List UInt8}
    (hbox : ∀ pk ∈ contents.pubkeys,
      env.beforenm (pk.push 0) (contents.privkey.push 0) = some (boxk pk))
    {file : Members} (h : contents.In file) :
    readDdbrokerkeys env file = .ok (contents.keys boxk) := by
  have hpass : file.foldlM (readDdMember env) ⟨none, none, none, none, 0, [], []⟩ =
      .ok (contents.read (fieldsOf (text "dd") file)) := by
    refine foldlM_eq_ok (fun before => contents.read (fieldsOf (text "dd") before)) []
      fun before member after hsplit => ?_
    have hmem : member ∈ file := hsplit ▸ List.mem_append_right _ List.mem_cons_self
    exact readDdMember_in env (h.dd.value hmem) _
  have hpriv := (h.dd.imp fun _ hv => hv.imp fun _ hin => hin.privkey).fieldsOf.seen
  have hpub := (h.dd.imp fun _ hv => hv.imp fun _ hin => hin.pubkey).fieldsOf.seen
  have hR := (h.dd.imp fun _ hv => hv.imp fun _ hin => hin.R).fieldsOf.seen
  have hown : contents.read (fieldsOf (text "dd") file) =
      ⟨some (contents.privkey.push 0), some (contents.pubkey.push 0), none, some contents.hash,
        contents.cookie, [], []⟩ := by
    simp [BrokerFile.read, seenKey, hpriv, hpub, hR]
  have hread : readDdbrokerkeys env file = (do
      let ddboxk ← sharedKey env (some (contents.pubkey.push 0)) (some (contents.privkey.push 0))
      file.foldlM (readTenantMember env) ⟨some (contents.privkey.push 0),
        some (contents.pubkey.push 0), some ddboxk, some contents.hash, contents.cookie, [],
          []⟩) := by
    rw [readDdbrokerkeys, hpass, hown]
    rfl
  have hshare : sharedKey env (some (contents.pubkey.push 0)) (some (contents.privkey.push 0)) =
      .ok (boxk contents.pubkey) := by
    rw [sharedKey, cryptoBoxBeforenm, hbox _ List.mem_cons_self]
    rfl
  rw [hread, hshare]
  exact readTenants_in env file rfl (fun pk hpk => hbox pk (List.mem_cons_of_mem _ hpk)) h.tenants

/-! ## The tables a broker starts with -/

/-- The memory image of a `uint64_t`. -/
def cookieImage (n : UInt64) : Cookie := ⟨leBytes 8 n.toNat, length_leBytes 8 n.toNat⟩

/-- A tenant, as the broker has it. -/
def TenantFile.tenant (boxk : Vector UInt8 32 → List UInt8) (tenant : TenantFile) : DdTenant where
  name := tenant.name
  cookie := cookieImage tenant.cookie
  boxk := boxk tenant.pubkey

/-- The broker's keys that the file says. -/
def BrokerFile.brokerKeys (boxk : Vector UInt8 32 → List UInt8) (contents : BrokerFile) :
    DdBrokerKeys where
  tenants := contents.tenants.map TenantFile.name
  tenantkeys := contents.tenants.map fun tenant => (tenant.hash, tenant.tenant boxk)
  hash := contents.hash
  cookie := cookieImage contents.cookie
  ddboxk := boxk contents.pubkey

/-- The tenant that was read is this one. -/
structure LoadsTenant (read : ReadTenant) (tenant : DdTenant) : Prop where
  name : read.name = some tenant.name
  cookie : cookieImage read.cookie = tenant.cookie
  boxk : read.boxk = some tenant.boxk

/-- **The broker's keys that were read** are these, and the table of the tenants answers alike. -/
structure LoadsBroker (read : ReadBrokerKeys) (keys : DdBrokerKeys) : Prop where
  tenants : read.tenants = keys.tenants
  hash : read.hash = some keys.hash
  cookie : cookieImage read.cookie = keys.cookie
  ddboxk : read.ddboxk = some keys.ddboxk
  tenant : ∀ hash, Option.Rel LoadsTenant (read.tenantkeys.lookup hash) (keys.tenant hash)

theorem addTenants_eq (boxk : Vector UInt8 32 → List UInt8) (tenants : List TenantFile)
    (ddkeys : ReadBrokerKeys) :
    tenants.foldl (addTenant boxk) ddkeys = { ddkeys with
      tenants := ddkeys.tenants ++ tenants.map TenantFile.name
      tenantkeys := tenants.foldl (fun keys tenant => zhashInsert keys tenant.hash
        ⟨some tenant.name, tenant.cookie, some (boxk tenant.pubkey)⟩) ddkeys.tenantkeys } := by
  induction tenants generalizing ddkeys with
  | nil => simp
  | cons tenant tenants ih =>
    rw [List.foldl_cons, ih, addTenant, List.map_cons, List.foldl_cons, List.append_assoc]
    rfl

/-- The tables of the tenants, entry by entry. -/
theorem tenants_rel (boxk : Vector UInt8 32 → List UInt8) (tenants : List TenantFile)
    (hash : CStr) :
    Option.Rel LoadsTenant
      ((tenants.map fun tenant => (tenant.hash, (⟨some tenant.name, tenant.cookie,
        some (boxk tenant.pubkey)⟩ : ReadTenant))).lookup hash)
      ((tenants.map fun tenant => (tenant.hash, tenant.tenant boxk)).lookup hash) := by
  induction tenants with
  | nil => exact .none
  | cons tenant tenants ih =>
    rw [List.map_cons, List.map_cons, List.lookup_cons, List.lookup_cons]
    cases hash == tenant.hash with
    | true => exact .some ⟨rfl, rfl, rfl⟩
    | false => exact ih

/-- **Reading a broker's file**: of every file that says some keys `read_ddbrokerkeys` makes the
tables the broker's model starts with. -/
theorem readDdbrokerkeys_loads (env : KeyEnv) {contents : BrokerFile}
    {boxk : Vector UInt8 32 → List UInt8}
    (hbox : ∀ pk ∈ contents.pubkeys,
      env.beforenm (pk.push 0) (contents.privkey.push 0) = some (boxk pk))
    {file : Members} (h : contents.In file) :
    ∃ read, readDdbrokerkeys env file = .ok read ∧ LoadsBroker read (contents.brokerKeys boxk) := by
  refine ⟨_, readDdbrokerkeys_in env hbox h, ?_⟩
  rw [BrokerFile.keys, addTenants_eq]
  refine ⟨rfl, rfl, rfl, rfl, fun hash => ?_⟩
  have hlookup := lookup_foldl_zhashInsert TenantFile.hash (fun tenant => (⟨some tenant.name,
    tenant.cookie, some (boxk tenant.pubkey)⟩ : ReadTenant)) contents.tenants [] hash
  rw [List.lookup_nil, Option.none_or] at hlookup
  rw [hlookup]
  exact tenants_rel boxk contents.tenants hash

/-- A broker's file with two tenants. -/
def demoBrokerFile : Members :=
  [(text "a0", .object [(text "pubkey", .string (demoText 1).bytes),
      (text "R", .string (text "14").bytes), (text "r", .string (text "public").bytes)] ∅),
    (text "dd", .object [(text "pubkey", .string (demoText 3).bytes),
      (text "R", .string (text "277").bytes), (text "privkey", .string (demoText 3).bytes)] ∅),
    (text "a1", .object [(text "r", .string (text "a").bytes),
      (text "pubkey", .string (demoText 2).bytes), (text "R", .string (text "75").bytes)] ∅)]

/-- What it says. -/
def demoBroker : BrokerFile where
  privkey := demoKey 3
  pubkey := demoKey 3
  hash := demoText 3
  cookie := 277
  tenants := [⟨text "a0", text "public", 14, demoKey 1⟩, ⟨text "a1", text "a", 75, demoKey 2⟩]

/-- A number from its digits, in the order `Nat.digits` has them. -/
theorem saysNumber_of_digits {n : UInt64} {val : Json} {m : ℕ} {l : List ℕ} (hn : n.toNat = m)
    (hm : m ≠ 0) (hl : Nat.digits 10 m = l)
    (h : val.getString = some (l.reverse.map fun d => UInt8.ofNat (48 + d))) :
      SaysNumber n val := by
  rw [SaysNumber, h, decimal, hn, if_neg hm, hl]

theorem demoBroker_in : demoBroker.In demoBrokerFile where
  dd := .of_values rfl ⟨_, _, rfl,
    ⟨.of_values rfl (spells_demo (by decide)),
      .of_values rfl ⟨spells_demo (by decide), congrArg some (CStr.ofBytes_bytes _)⟩,
      .of_values rfl (saysNumber_of_digits (m := 277) (l := [7, 7, 2]) rfl (by decide)
        (by norm_num) rfl)⟩⟩
  tenants :=
    .cons ⟨rfl, _, _, rfl, ⟨.of_values rfl rfl,
        .of_values rfl (saysNumber_of_digits (m := 14) (l := [4, 1]) rfl (by decide)
          (by norm_num) rfl),
        .of_values rfl (spells_demo (by decide))⟩⟩ <|
    .cons ⟨rfl, _, _, rfl, ⟨.of_values rfl rfl,
        .of_values rfl (saysNumber_of_digits (m := 75) (l := [5, 7]) rfl (by decide)
          (by norm_num) rfl),
        .of_values rfl (spells_demo (by decide))⟩⟩ .nil

/-- Two tenants around the broker's own keys. -/
theorem readDdbrokerkeys_loads_two : ∃ read, readDdbrokerkeys sumKeyEnv demoBrokerFile = .ok read ∧
    LoadsBroker read (demoBroker.brokerKeys fun pk =>
      List.zipWith (· + ·) pk.toList (demoKey 3).toList) :=
  readDdbrokerkeys_loads sumKeyEnv (fun pk _ => beforenm_sumKeyEnv pk (demoKey 3)) demoBroker_in

/-! ## Files that belong together -/

/-- The first entry with a key is the one of the first element. -/
theorem lookup_map_find? {α β : Type} (key : β → CStr) (item : β → α) (l : List β) (name : CStr) :
    (l.map fun b => (key b, item b)).lookup name = (l.find? (key · = name)).map item := by
  induction l with
  | nil => rfl
  | cons b l ih =>
    rw [List.map_cons, List.lookup_cons]
    by_cases h : key b = name
    · rw [List.find?_cons, decide_eq_true h, beq_iff_eq.mpr h.symm]
      rfl
    · rw [List.find?_cons, decide_eq_false h, beq_eq_false_iff_ne.mpr (Ne.symm h)]
      exact ih

/-- **A client's file and a broker's file that belong together** agree when they are read: the
broker files the client's tenant under the hash the client sends, and the key it makes for the
tenant is the one the client makes for the broker. -/
theorem files_agree (env : KeyEnv) {broker : BrokerFile} {client : ClientFile}
    {brokerMembers clientMembers : Members} (hbroker : broker.In brokerMembers)
    (hclient : client.In clientMembers)
    (hbox : ∀ pk ∈ broker.pubkeys, ∃ k, env.beforenm (pk.push 0) (broker.privkey.push 0) = some k)
    (hsymm : env.beforenm (client.own.pubkey.push 0) (broker.privkey.push 0) =
      env.beforenm (broker.pubkey.push 0) (client.own.privkey.push 0))
    (hdd : client.own.ddpubkey = broker.pubkey) {tenant : TenantFile}
    (htenant : broker.tenants.find? (·.hash = client.own.hash) = some tenant)
    (hpub : tenant.pubkey = client.own.pubkey) :
    ∃ brokerKeys clientKeys ten,
      readDdbrokerkeys env brokerMembers = .ok brokerKeys ∧
      ddKeysRead env clientMembers = .ok clientKeys ∧
      clientKeys.hash.bind (brokerKeys.tenantkeys.lookup ·) = some ten ∧
      ten.name = some tenant.name ∧ ten.cookie = tenant.cookie ∧ ten.boxk = clientKeys.ddboxk := by
  let k (pk : Vector UInt8 32) : List UInt8 := boxk env pk broker.privkey
  have hk : ∀ pk ∈ broker.pubkeys,
      env.beforenm (pk.push 0) (broker.privkey.push 0) = some (k pk) := fun pk hpk => by
    obtain ⟨key, hkey⟩ := hbox pk hpk
    rw [show k pk = boxk env pk broker.privkey from rfl, boxk, hkey, Option.getD_some]
  refine ⟨broker.keys k, client.keys env,
    ⟨some tenant.name, tenant.cookie, some (k tenant.pubkey)⟩, readDdbrokerkeys_in env hk hbroker,
    ddKeysRead_in env hclient, ?_, rfl, rfl, ?_⟩
  · have hhash : (client.keys env).hash = some client.own.hash := by
      rw [ClientFile.keys]
      split_ifs
      · rw [addCustomers_eq]
        rfl
      · rfl
    have hlookup := lookup_foldl_zhashInsert TenantFile.hash (fun tenant => (⟨some tenant.name,
      tenant.cookie, some (k tenant.pubkey)⟩ : ReadTenant)) broker.tenants [] client.own.hash
    rw [List.lookup_nil, Option.none_or, lookup_map_find?, htenant] at hlookup
    rw [hhash, Option.bind_some, BrokerFile.keys, addTenants_eq]
    exact hlookup
  · have hshared : boxk env broker.pubkey client.own.privkey = k client.own.pubkey := by
      rw [boxk, ← hsymm]
      rfl
    rw [hpub, ← hshared, ← hdd]
    rfl

/-- The file of a client of the second tenant. -/
def demoTenantClientFile : Members :=
  [(text "hash", .string (text "a1").bytes), (text "publicpubkey", .string (demoText 1).bytes),
    (text "ddpubkey", .string (demoText 3).bytes), (text "privkey", .string (demoText 2).bytes),
    (text "pubkey", .string (demoText 2).bytes)]

/-- What it says. -/
def demoTenantClient : ClientFile where
  ispublic := false
  own := ⟨demoKey 1, demoKey 3, demoKey 2, demoKey 2, text "a1"⟩
  customers := []

theorem demoTenantClient_in : demoTenantClient.In demoTenantClientFile where
  ispublic := by decide
  own _ := ⟨.of_values rfl (spells_demo (by decide)), .of_values rfl (spells_demo (by decide)),
    .of_values rfl (spells_demo (by decide)), .of_values rfl (spells_demo (by decide)),
    .of_values rfl rfl⟩
  ownPublic h := absurd h (by decide)
  customers h := absurd h (by decide)

/-- A client of the second tenant. -/
theorem files_agree_demo : ∃ brokerKeys clientKeys ten,
    readDdbrokerkeys sumKeyEnv demoBrokerFile = .ok brokerKeys ∧
    ddKeysRead sumKeyEnv demoTenantClientFile = .ok clientKeys ∧
    clientKeys.hash.bind (brokerKeys.tenantkeys.lookup ·) = some ten ∧
    ten.name = some (text "a") ∧ ten.cookie = 75 ∧ ten.boxk = clientKeys.ddboxk := by
  have hsymm : sumKeyEnv.beforenm ((demoKey 2).push 0) ((demoKey 3).push 0) =
      sumKeyEnv.beforenm ((demoKey 3).push 0) ((demoKey 2).push 0) := by
    rw [beforenm_sumKeyEnv, beforenm_sumKeyEnv]
    decide
  have htenant : demoBroker.tenants.find? (·.hash = demoTenantClient.own.hash) =
      some ⟨text "a1", text "a", 75, demoKey 2⟩ := rfl
  exact files_agree sumKeyEnv demoBroker_in demoTenantClient_in
    (fun pk _ => ⟨_, beforenm_sumKeyEnv pk (demoKey 3)⟩) hsymm rfl htenant rfl

end DoubleDecker
