import DoubleDecker.Keys.Files

/-!
# Keys/Complete — key files that are accepted without being complete

A key file is complete when every key it must have is there and decodes to 32 bytes, and every
tenant has a name and a number (`BrokerComplete`, `ClientComplete`).  Reading it should return a key
set of a complete file only, and `NULL` of any other (`Right`).

The loops look at the fields that are there and one by one.  `brokerCheck` and `clientCheck` are the
first thing in the file that ends the reading; the reading is right if and only if that is a key of
the wrong size, or there is none and the file is complete (`readRight_iff`).
-/

namespace DoubleDecker

/-! ## Complete key files -/

/-- The values of the members with a name, one in an object of json-c at most. -/
def values (name : CStr) (members : Members) : List Json :=
  (members.filter (·.1 = name)).map (·.2)

/-- There is a member with the name, and its value is as required. -/
def Has (name : String) (p : Json → Prop) (members : Members) : Prop :=
  values (text name) members ≠ [] ∧ ∀ val ∈ values (text name) members, p val

/-- The value is an object, and its members are as required. -/
def IsObject (p : Members → Prop) (val : Json) : Prop :=
  ∃ members printed, val = .object members printed ∧ p members

/-- A string that decodes to 32 bytes. -/
def IsKey (val : Json) : Prop := ∃ s, val = .string s ∧ DecodesTo32 s

/-- A string without `NUL` that decodes to 32 bytes. -/
def IsKeyText (val : Json) : Prop := ∃ s : CStr, val = .string s.bytes ∧ DecodesTo32 s.bytes

/-- A name. -/
def IsName (val : Json) : Prop := val.getString ≠ none

/-- A number for `strtoull`. -/
def IsNumber (val : Json) : Prop :=
  ∃ s, val.getString = some s ∧ (strtoullSubject (CStr.ofBytes s)).2 ≠ []

/-- The member `dd` of a broker's file. -/
structure DdComplete (fields : Members) : Prop where
  privkey : Has "privkey" IsKey fields
  pubkey : Has "pubkey" IsKey fields
  R : Has "R" IsNumber fields

/-- A tenant of a broker's file. -/
structure TenantComplete (fields : Members) : Prop where
  r : Has "r" IsName fields
  pubkey : Has "pubkey" IsKey fields
  R : Has "R" IsNumber fields

/-- **A complete broker's file.** -/
structure BrokerComplete (file : Members) : Prop where
  dd : Has "dd" (IsObject DdComplete) file
  tenants : ∀ member ∈ file, member.1 ≠ text "dd" → IsObject TenantComplete member.2

/-- A client's own keys. -/
structure OwnComplete (fields : Members) : Prop where
  publicpubkey : Has "publicpubkey" IsKey fields
  ddpubkey : Has "ddpubkey" IsKey fields
  privkey : Has "privkey" IsKey fields
  pubkey : Has "pubkey" IsKey fields

/-- The file is that of the public tenant. -/
def isPublic (file : Members) : Bool := file.any fun member => member.1 = text "public"

/-- **A complete client's file.** -/
structure ClientComplete (file : Members) : Prop where
  own : isPublic file = false → OwnComplete file
  ownPublic : isPublic file = true → Has "public" (IsObject OwnComplete) file
  customers : isPublic file = true → ∀ member ∈ file, member.1 ≠ text "public" →
    IsObject (Has "pubkey" IsKeyText) member.2

/-- What reading a file should end with: a key set of a complete file, or `NULL`. -/
def Right {α : Type} (complete : Prop) : Except Stop α → Prop
  | .ok _ => complete
  | .error .null => True
  | .error .fault => False

/-- **The reading is as it should be**, of both kinds of file. -/
structure ReadRight (env : KeyEnv) (file : Members) : Prop where
  broker : Right (BrokerComplete file) (readDdbrokerkeys env file)
  client : Right (ClientComplete file) (ddKeysRead env file)

/-! ## What ends the reading -/

/-- The characters of a value that are decoded. -/
def keyText (val : Json) : List UInt8 := (val.getString.getD []).take val.getStringLen

/-- A key of a wrong size, which is not read when it is too long for the buffer. -/
def keyCheck (env : KeyEnv) (val : Json) : Option Stop :=
  if 44 < sextets env.behind (keyText val) then some .fault
  else if sextets env.behind (keyText val) = 43 then none
  else some .null

/-- A `null` where a string is read. -/
def cstrCheck (val : Json) : Option Stop :=
  if val.getString = none then some .fault else none

/-- The key that the decoder makes of a value. -/
def keyOf (env : KeyEnv) (val : Json) (out : KeyBuffer) : KeyBuffer :=
  ((base64DecodeBlock env.behind (keyText val) out base64InitDecodestate).map (·.2.1)).getD out

/-- The first field of an object with a check that fails; every other value is no object. -/
def fieldsCheck (check : CStr × Json → Option Stop) : Json → Option Stop
  | .object fields _ => fields.findSome? check
  | _ => some .fault

/-- A field of `dd`. -/
def ddFieldCheck (env : KeyEnv) (field : CStr × Json) : Option Stop :=
  if field.1 = text "privkey" then keyCheck env field.2
  else if field.1 = text "pubkey" then (cstrCheck field.2).or (keyCheck env field.2)
  else if field.1 = text "R" then cstrCheck field.2
  else none

/-- A field of a tenant, with the secret key of the broker. -/
def tenantFieldCheck (env : KeyEnv) (hash : CStr) (sk : KeyBuffer) (field : CStr × Json) :
    Option Stop :=
  if field.1 = text "pubkey" then (keyCheck env field.2).or
    (if env.beforenm (keyOf env field.2 (env.stack hash)) sk = none then some .null else none)
  else if field.1 = text "r" then cstrCheck field.2
  else if field.1 = text "R" then cstrCheck field.2
  else none

/-- A field of the client's own keys. -/
def keyFieldCheck (env : KeyEnv) (field : CStr × Json) : Option Stop :=
  if field.1 = text "publicpubkey" then keyCheck env field.2
  else if field.1 = text "ddpubkey" then keyCheck env field.2
  else if field.1 = text "privkey" then keyCheck env field.2
  else if field.1 = text "pubkey" then keyCheck env field.2
  else if field.1 = text "hash" then cstrCheck field.2
  else none

/-- The fields of the members with a name. -/
def fieldsOf (name : CStr) (file : Members) : Members :=
  (values name file).flatMap fun val => match val with
    | .object fields _ => fields
    | _ => []

/-- The names are all there. -/
def present (names : List String) (fields : Members) : Option Stop :=
  if ∀ name ∈ names, values (text name) fields ≠ [] then none else some .fault

/-- The last key with a name. -/
def lastKey (env : KeyEnv) (name : String) (fields : Members) : Option KeyBuffer :=
  (values (text name) fields).getLast?.map fun val => keyOf env val zeroKey

/-- What ends the reading of a broker's file: a field of `dd`, a key of `dd` that is not there, or a
field of a tenant. -/
def brokerCheck (env : KeyEnv) (file : Members) : Option Stop :=
  (file.findSome? fun member =>
      if member.1 = text "dd" then fieldsCheck (ddFieldCheck env) member.2 else none).or <|
    (present ["privkey", "pubkey"] (fieldsOf (text "dd") file)).or <|
    file.findSome? fun member =>
      if member.1 ≠ text "dd" then fieldsCheck (tenantFieldCheck env member.1
        ((lastKey env "privkey" (fieldsOf (text "dd") file)).getD zeroKey)) member.2
      else none

/-- The pairs of a name and a key that the scan of a customer's fields comes to, with what it has
already. -/
def customersFrom (name pubkey : Option CStr) : Members → List (CStr × CStr)
  | [] => []
  | field :: fields =>
    let name := if field.1 = text "r" then field.2.getString.map CStr.ofBytes else name
    let pubkey := if field.1 = text "r" then pubkey
      else if field.1 = text "pubkey" then field.2.getString.map CStr.ofBytes else pubkey
    match name, pubkey with
    | some name, some pubkey => (name, pubkey) :: customersFrom none none fields
    | _, _ => customersFrom name pubkey fields

/-- A customer's key, which is used whatever its size: it is written past the end of the buffer, or
there is no secret key to use it with. -/
def customerCheck (env : KeyEnv) (own : Members) (customer : CStr × CStr) : Option Stop :=
  if 44 < sextets env.behind customer.2.bytes then some .fault else present ["privkey"] own

/-- A customer. -/
def customerFieldsCheck (env : KeyEnv) (own : Members) : Json → Option Stop
  | .object fields _ => (customersFrom none none fields).findSome? (customerCheck env own)
  | _ => some .fault

/-- The names of a client's own keys. -/
def ownNames : List String := ["publicpubkey", "ddpubkey", "privkey", "pubkey"]

/-- What ends the reading of a client's file: a field of its own keys, a customer, or a key of its
own that is not there. -/
def clientCheck (env : KeyEnv) (file : Members) : Option Stop :=
  if isPublic file then
    (file.findSome? fun member =>
        if member.1 = text "public" then fieldsCheck (keyFieldCheck env) member.2 else none).or <|
      (file.findSome? fun member =>
        if member.1 ≠ text "public" then
          customerFieldsCheck env (fieldsOf (text "public") file) member.2
        else none).or <|
      present ownNames (fieldsOf (text "public") file)
  else (file.findSome? (keyFieldCheck env)).or (present ownNames file)

/-- Nothing ends the reading of a complete file, or what ends it is noticed. -/
def Fits (check : Option Stop) (complete : Prop) : Prop :=
  check = some .null ∨ check = none ∧ complete

theorem right_iff_of_stop {α : Type} {x : Except Stop α} {check : Option Stop} {complete : Prop}
    (h : stop x = check) : Right complete x ↔ Fits check complete := by
  subst h
  cases x with
  | ok a => simp [Right, Fits]
  | error e => cases e <;> simp [Right, Fits]

/-! ## One field -/

/-- A text with too many sextets is written past the end of the buffer, another is decoded. -/
theorem decodeKey_cases (env : KeyEnv) (code : List UInt8) (out : KeyBuffer) :
    44 < sextets env.behind code ∧ decodeKey env code out = .error .fault ∨
    sextets env.behind code ≤ 44 ∧ decodeKey env code out =
      .ok (3 * sextets env.behind code / 4,
        ((base64DecodeBlock env.behind code out base64InitDecodestate).map (·.2.1)).getD out) := by
  have hdecode := base64DecodeBlock_eq env.behind (show 0 < 33 by omega) code out
  rw [decodeKey]
  cases hblock : base64DecodeBlock env.behind code out base64InitDecodestate with
  | none =>
    rw [hblock, Option.map_none] at hdecode
    refine Or.inl ⟨?_, rfl⟩
    by_contra hshort
    rw [if_pos (by omega)] at hdecode
    cases hdecode
  | some r =>
    obtain ⟨n, key, state⟩ := r
    rw [hblock, Option.map_some] at hdecode
    have hfits : 3 * sextets env.behind code ≤ 4 * 33 := by
      by_contra hlong
      rw [if_neg hlong] at hdecode
      cases hdecode
    rw [if_pos hfits, Option.some.injEq] at hdecode
    obtain rfl : n = 3 * sextets env.behind code / 4 := hdecode
    exact Or.inr ⟨by omega, rfl⟩

theorem checkedKey_cases (env : KeyEnv) (val : Json) (out : KeyBuffer) :
    stop (checkedKey env val out) = keyCheck env val ∧
      ∀ key, checkedKey env val out = .ok key → key = keyOf env val out := by
  rw [checkedKey, keyCheck, keyOf, ← keyText]
  obtain ⟨hlong, hkey⟩ | ⟨hshort, hkey⟩ := decodeKey_cases env (keyText val) out
  · rw [if_pos hlong, hkey]
    exact ⟨rfl, fun _ h => by cases h⟩
  · rw [if_neg (Nat.not_lt.mpr hshort), hkey]
    simp only [bind, Except.bind]
    by_cases hsextets : sextets env.behind (keyText val) = 43
    · rw [if_pos hsextets, if_neg (by omega)]
      exact ⟨rfl, fun _ h => by cases h; rfl⟩
    · rw [if_neg hsextets, if_pos (by omega)]
      exact ⟨rfl, fun _ h => by cases h⟩

theorem stop_checkedKey (env : KeyEnv) (val : Json) (out : KeyBuffer) :
    stop (checkedKey env val out) = keyCheck env val := (checkedKey_cases env val out).1

theorem stop_cstr (val : Json) : stop val.cstr = cstrCheck val := by
  cases val <;> rfl

theorem stop_sharedKey (env : KeyEnv) (pk sk : Option KeyBuffer) :
    stop (sharedKey env pk sk) = if pk.isSome ∧ sk.isSome then none else some .fault := by
  cases pk <;> cases sk <;> rfl

@[simp] theorem values_nil (name : CStr) : values name [] = [] := rfl

theorem values_append (name : CStr) (fields more : Members) :
    values name (fields ++ more) = values name fields ++ values name more := by
  rw [values, List.filter_append, List.map_append]
  rfl

theorem values_single (name : CStr) (field : CStr × Json) :
    values name [field] = if field.1 = name then [field.2] else [] := by
  by_cases h : field.1 = name <;> simp [values, h]

theorem lastKey_concat_self (env : KeyEnv) {name : String} (fields : Members) {field : CStr × Json}
    (h : field.1 = text name) :
    lastKey env name (fields ++ [field]) = some (keyOf env field.2 zeroKey) := by
  rw [lastKey, values_append, values_single, if_pos h, List.getLast?_concat, Option.map_some]

theorem lastKey_concat_of_ne (env : KeyEnv) {name : String} (fields : Members)
    {field : CStr × Json} (h : field.1 ≠ text name) :
    lastKey env name (fields ++ [field]) = lastKey env name fields := by
  rw [lastKey, values_append, values_single, if_neg h, List.append_nil, lastKey]

theorem isSome_lastKey (env : KeyEnv) (name : String) (fields : Members) :
    (lastKey env name fields).isSome ↔ values (text name) fields ≠ [] := by
  rw [lastKey, Option.isSome_map, List.getLast?_isSome]

theorem fieldsOf_append (name : CStr) (file more : Members) :
    fieldsOf name (file ++ more) = fieldsOf name file ++ fieldsOf name more := by
  rw [fieldsOf, values_append, List.flatMap_append]
  rfl

/-! ## The fields of the members with a name -/

section Pass

variable {α : Type} {name : CStr} {body : α → CStr × Json → Except Stop α}

theorem stop_fields {check : CStr × Json → Option Stop}
    (h : ∀ ddkeys field, stop (body ddkeys field) = check field) (fields : Members) (ddkeys : α) :
    stop (fields.foldlM body ddkeys) = fields.findSome? check :=
  stop_foldlM (P := fun _ => True) (fun k f _ => h k f) (fun _ _ _ _ _ => trivial) fields ddkeys
    trivial

/-- A pass through the fields of the members with a name ends at the first field with a check that
fails. -/
theorem stop_pass {check : CStr × Json → Option Stop}
    (h : ∀ ddkeys field, stop (body ddkeys field) = check field) (ddkeys : α)
    (member : CStr × Json) :
    stop (if member.1 = name then do
        let fields ← member.2.foreach
        fields.foldlM body ddkeys
      else return ddkeys) = if member.1 = name then fieldsCheck check member.2 else none := by
  split_ifs
  · cases member.2 with
    | object fields printed => exact stop_fields h fields ddkeys
    | _ => rfl
  · rfl

/-- What each field keeps true, such a pass does. -/
theorem pass_trail {I : Members → α → Prop} {file : Members} {ddkeys ddkeys' : α}
    {member : CStr × Json}
    (hkeep : ∀ before field k k', I before k → body k field = .ok k' → I (before ++ [field]) k')
    (h : I (fieldsOf name file) ddkeys)
    (hread : (if member.1 = name then do
        let fields ← member.2.foreach
        fields.foldlM body ddkeys
      else return ddkeys) = .ok ddkeys') : I (fieldsOf name (file ++ [member])) ddkeys' := by
  rw [fieldsOf_append]
  split_ifs at hread with hname
  · obtain ⟨fields, hfields, hread⟩ := bind_eq_ok hread
    obtain ⟨memberName, val⟩ := member
    cases val with
    | object members printed =>
      cases hfields
      have hone : fieldsOf name [(memberName, .object fields printed)] = fields := by
        rw [fieldsOf, values_single, if_pos hname]
        exact List.flatMap_singleton _ _
      rw [hone]
      exact foldlM_trail hkeep _ h hread
    | _ => cases hfields
  · cases hread
    rwa [fieldsOf, fieldsOf, values_single, if_neg hname, List.flatMap_nil, List.append_nil]

end Pass

/-! ## The broker's file -/

/-- The keys of `dd` after the fields gone through. -/
structure BrokerOwnKeys (env : KeyEnv) (fields : Members) (ddkeys : ReadBrokerKeys) : Prop where
  privkey : ddkeys.privkey = lastKey env "privkey" fields
  pubkey : ddkeys.pubkey = lastKey env "pubkey" fields

theorem stop_readDdField (env : KeyEnv) (ddkeys : ReadBrokerKeys) (field : CStr × Json) :
    stop (readDdField env ddkeys field) = ddFieldCheck env field := by
  rw [readDdField, ddFieldCheck]
  split_ifs
  · rw [stop_bind (r := none) fun _ _ => rfl, stop_checkedKey, Option.or_none]
  · rw [stop_bind (r := keyCheck env field.2), stop_cstr]
    intro _ _
    rw [stop_bind (r := none) fun _ _ => rfl, stop_checkedKey, Option.or_none]
  · rw [stop_bind (r := none) fun _ _ => rfl, stop_cstr, Option.or_none]
  · rfl

theorem readDdField_keys {env : KeyEnv} {fields : Members} {ddkeys ddkeys' : ReadBrokerKeys}
    {field : CStr × Json} (h : BrokerOwnKeys env fields ddkeys)
    (hread : readDdField env ddkeys field = .ok ddkeys') :
    BrokerOwnKeys env (fields ++ [field]) ddkeys' := by
  rw [readDdField] at hread
  split_ifs at hread with hpriv hpub hR
  · obtain ⟨key, hkey, hread⟩ := bind_eq_ok hread
    cases hread
    have hpub : field.1 ≠ text "pubkey" := hpriv ▸ by decide
    exact ⟨by rw [lastKey_concat_self env fields hpriv, (checkedKey_cases ..).2 _ hkey],
      by rw [lastKey_concat_of_ne env fields hpub]; exact h.pubkey⟩
  · obtain ⟨hash, -, hread⟩ := bind_eq_ok hread
    obtain ⟨key, hkey, hread⟩ := bind_eq_ok hread
    cases hread
    exact ⟨by rw [lastKey_concat_of_ne env fields hpriv]; exact h.privkey,
      by rw [lastKey_concat_self env fields hpub, (checkedKey_cases ..).2 _ hkey]⟩
  · obtain ⟨R, -, hread⟩ := bind_eq_ok hread
    cases hread
    exact ⟨by rw [lastKey_concat_of_ne env fields hpriv]; exact h.privkey,
      by rw [lastKey_concat_of_ne env fields hpub]; exact h.pubkey⟩
  · cases hread
    exact ⟨by rw [lastKey_concat_of_ne env fields hpriv]; exact h.privkey,
      by rw [lastKey_concat_of_ne env fields hpub]; exact h.pubkey⟩

theorem stop_readDdMember (env : KeyEnv) (ddkeys : ReadBrokerKeys) (member : CStr × Json) :
    stop (readDdMember env ddkeys member) =
      if member.1 = text "dd" then fieldsCheck (ddFieldCheck env) member.2 else none :=
  stop_pass (stop_readDdField env) ddkeys member

theorem readDdMember_keys {env : KeyEnv} {file : Members} {ddkeys ddkeys' : ReadBrokerKeys}
    {member : CStr × Json} (h : BrokerOwnKeys env (fieldsOf (text "dd") file) ddkeys)
    (hread : readDdMember env ddkeys member = .ok ddkeys') :
    BrokerOwnKeys env (fieldsOf (text "dd") (file ++ [member])) ddkeys' :=
  pass_trail (fun _ _ _ _ hb hstep => readDdField_keys hb hstep) h hread

theorem stop_readTenantField (env : KeyEnv) (hash : CStr) (sk : KeyBuffer) (ten : ReadTenant)
    (field : CStr × Json) :
    stop (readTenantField env hash (some sk) ten field) = tenantFieldCheck env hash sk field := by
  rw [readTenantField, tenantFieldCheck]
  split_ifs with hpub hweak hr hR
  · rw [stop_bind (r := some .null), stop_checkedKey]
    intro key hkey
    simp only [cryptoBoxBeforenm, (checkedKey_cases ..).2 _ hkey, hweak]
    rfl
  · rw [stop_bind (r := none), stop_checkedKey]
    intro key hkey
    obtain ⟨boxk, hboxk⟩ := Option.ne_none_iff_exists'.mp hweak
    simp only [cryptoBoxBeforenm, (checkedKey_cases ..).2 _ hkey, hboxk]
    rfl
  · rw [stop_bind (r := none) fun _ _ => rfl, stop_cstr, Option.or_none]
  · rw [stop_bind (r := none) fun _ _ => rfl, stop_cstr, Option.or_none]
  · rfl

theorem stop_readTenantMember {env : KeyEnv} {sk : KeyBuffer} {ddkeys : ReadBrokerKeys}
    (hsk : ddkeys.privkey = some sk) (member : CStr × Json) :
    stop (readTenantMember env ddkeys member) =
      if member.1 ≠ text "dd" then fieldsCheck (tenantFieldCheck env member.1 sk) member.2
      else none := by
  rw [readTenantMember, hsk]
  split_ifs
  · cases member.2 with
    | object fields printed =>
      refine (stop_bind (r := none)
        (x := fields.foldlM (readTenantField env member.1 (some sk)) ⟨none, 0, none⟩)
        fun _ _ => rfl).trans ?_
      rw [Option.or_none]
      exact stop_fields (stop_readTenantField env member.1 sk) fields _
    | _ => rfl
  · rfl

theorem readTenantMember_privkey {env : KeyEnv} {ddkeys ddkeys' : ReadBrokerKeys}
    {member : CStr × Json} (hread : readTenantMember env ddkeys member = .ok ddkeys') :
    ddkeys'.privkey = ddkeys.privkey := by
  rw [readTenantMember] at hread
  split_ifs at hread
  · obtain ⟨fields, -, hread⟩ := bind_eq_ok hread
    obtain ⟨ten, -, hread⟩ := bind_eq_ok hread
    cases hread
    rfl
  · cases hread
    rfl

/-- **How reading a broker's file ends.** -/
theorem stop_readDdbrokerkeys (env : KeyEnv) (file : Members) :
    stop (readDdbrokerkeys env file) = brokerCheck env file := by
  rw [readDdbrokerkeys, brokerCheck]
  rw [← stop_fields (stop_readDdMember env) file ⟨none, none, none, none, 0, [], []⟩]
  refine stop_bind fun ddkeys hdd => ?_
  have hkeys : BrokerOwnKeys env (fieldsOf (text "dd") file) ddkeys :=
    foldlM_trail (I := fun before k => BrokerOwnKeys env (fieldsOf (text "dd") before) k)
      (fun _ _ _ _ hb hstep => readDdMember_keys hb hstep) [] ⟨rfl, rfl⟩ hdd
  have hpresent : stop (sharedKey env ddkeys.pubkey ddkeys.privkey) =
      present ["privkey", "pubkey"] (fieldsOf (text "dd") file) := by
    rw [stop_sharedKey, hkeys.privkey, hkeys.pubkey]
    simp only [isSome_lastKey, present, List.forall_mem_cons, and_comm]
    simp
  rw [← hpresent]
  refine stop_bind fun ddboxk hboxk => ?_
  have hsome : stop (sharedKey env ddkeys.pubkey ddkeys.privkey) = none := by rw [hboxk]; rfl
  rw [stop_sharedKey] at hsome
  obtain ⟨sk, hsk⟩ : ∃ sk, ddkeys.privkey = some sk := by
    refine Option.isSome_iff_exists.mp ?_
    by_contra hnone
    rw [if_neg fun h => hnone h.2] at hsome
    cases hsome
  rw [← hkeys.privkey, hsk, Option.getD_some]
  exact stop_foldlM (P := fun k => k.privkey = some sk) (fun k m hk => stop_readTenantMember hk m)
    (fun _ _ _ hk hstep => (readTenantMember_privkey hstep).trans hk) file _ rfl

/-! ## The client's file -/

/-- The own keys of a client after the fields gone through. -/
structure OwnKeys (env : KeyEnv) (fields : Members) (ddkeys : ReadKeys) : Prop where
  publicpubkey : ddkeys.publicpubkey = lastKey env "publicpubkey" fields
  ddpubkey : ddkeys.ddpubkey = lastKey env "ddpubkey" fields
  privkey : ddkeys.privkey = lastKey env "privkey" fields
  pubkey : ddkeys.pubkey = lastKey env "pubkey" fields

theorem stop_readKeyField (env : KeyEnv) (ddkeys : ReadKeys) (field : CStr × Json) :
    stop (readKeyField env ddkeys field) = keyFieldCheck env field := by
  rw [readKeyField, keyFieldCheck]
  split_ifs
  · rw [stop_bind (r := none) fun _ _ => rfl, stop_checkedKey, Option.or_none]
  · rw [stop_bind (r := none) fun _ _ => rfl, stop_checkedKey, Option.or_none]
  · rw [stop_bind (r := none) fun _ _ => rfl, stop_checkedKey, Option.or_none]
  · rw [stop_bind (r := none) fun _ _ => rfl, stop_checkedKey, Option.or_none]
  · rw [stop_bind (r := none) fun _ _ => rfl, stop_cstr, Option.or_none]
  · rfl

theorem OwnKeys.skip {env : KeyEnv} {fields : Members} {ddkeys : ReadKeys} {field : CStr × Json}
    (h : OwnKeys env fields ddkeys) (hne : ∀ name ∈ ownNames, field.1 ≠ text name) :
    OwnKeys env (fields ++ [field]) ddkeys where
  publicpubkey := by rw [lastKey_concat_of_ne env fields (hne _ (by decide)), h.publicpubkey]
  ddpubkey := by rw [lastKey_concat_of_ne env fields (hne _ (by decide)), h.ddpubkey]
  privkey := by rw [lastKey_concat_of_ne env fields (hne _ (by decide)), h.privkey]
  pubkey := by rw [lastKey_concat_of_ne env fields (hne _ (by decide)), h.pubkey]

theorem readKeyField_keys {env : KeyEnv} {fields : Members} {ddkeys ddkeys' : ReadKeys}
    {field : CStr × Json} (h : OwnKeys env fields ddkeys)
    (hread : readKeyField env ddkeys field = .ok ddkeys') :
    OwnKeys env (fields ++ [field]) ddkeys' := by
  rw [readKeyField] at hread
  have hother {name : String} (hname : field.1 = text name) (other : String)
      (hne : text name ≠ text other) :
      lastKey env other (fields ++ [field]) = lastKey env other fields :=
    lastKey_concat_of_ne env fields (hname ▸ hne)
  split_ifs at hread with hname hname hname hname hname
  · obtain ⟨key, hkey, hread⟩ := bind_eq_ok hread
    cases hread
    exact ⟨by rw [lastKey_concat_self env fields hname, (checkedKey_cases ..).2 _ hkey],
      by rw [hother hname _ (by decide)]; exact h.ddpubkey,
      by rw [hother hname _ (by decide)]; exact h.privkey,
      by rw [hother hname _ (by decide)]; exact h.pubkey⟩
  · obtain ⟨key, hkey, hread⟩ := bind_eq_ok hread
    cases hread
    exact ⟨by rw [hother hname _ (by decide)]; exact h.publicpubkey,
      by rw [lastKey_concat_self env fields hname, (checkedKey_cases ..).2 _ hkey],
      by rw [hother hname _ (by decide)]; exact h.privkey,
      by rw [hother hname _ (by decide)]; exact h.pubkey⟩
  · obtain ⟨key, hkey, hread⟩ := bind_eq_ok hread
    cases hread
    exact ⟨by rw [hother hname _ (by decide)]; exact h.publicpubkey,
      by rw [hother hname _ (by decide)]; exact h.ddpubkey,
      by rw [lastKey_concat_self env fields hname, (checkedKey_cases ..).2 _ hkey],
      by rw [hother hname _ (by decide)]; exact h.pubkey⟩
  · obtain ⟨key, hkey, hread⟩ := bind_eq_ok hread
    cases hread
    exact ⟨by rw [hother hname _ (by decide)]; exact h.publicpubkey,
      by rw [hother hname _ (by decide)]; exact h.ddpubkey,
      by rw [hother hname _ (by decide)]; exact h.privkey,
      by rw [lastKey_concat_self env fields hname, (checkedKey_cases ..).2 _ hkey]⟩
  · obtain ⟨hash, -, hread⟩ := bind_eq_ok hread
    cases hread
    have hskip : OwnKeys env (fields ++ [field]) ddkeys := h.skip fun name hmem => by
      rw [hname]
      revert name
      decide
    exact ⟨hskip.publicpubkey, hskip.ddpubkey, hskip.privkey, hskip.pubkey⟩
  · cases hread
    refine h.skip fun name hmem => ?_
    simp only [ownNames, List.mem_cons, List.not_mem_nil, or_false] at hmem
    obtain rfl | rfl | rfl | rfl := hmem <;> assumption

theorem stop_readPublicMember (env : KeyEnv) (ddkeys : ReadKeys) (member : CStr × Json) :
    stop (readPublicMember env ddkeys member) =
      if member.1 = text "public" then fieldsCheck (keyFieldCheck env) member.2 else none :=
  stop_pass (stop_readKeyField env) ddkeys member

theorem readPublicMember_keys {env : KeyEnv} {file : Members} {ddkeys ddkeys' : ReadKeys}
    {member : CStr × Json} (h : OwnKeys env (fieldsOf (text "public") file) ddkeys)
    (hread : readPublicMember env ddkeys member = .ok ddkeys') :
    OwnKeys env (fieldsOf (text "public") (file ++ [member])) ddkeys' :=
  pass_trail (fun _ _ _ _ hb hstep => readKeyField_keys hb hstep) h hread

theorem stop_decodeKey (env : KeyEnv) (code : List UInt8) (out : KeyBuffer) :
    stop (decodeKey env code out) =
      if 44 < sextets env.behind code then some .fault else none := by
  obtain ⟨hlong, hkey⟩ | ⟨hshort, hkey⟩ := decodeKey_cases env code out
  · rw [hkey, if_pos hlong]
    rfl
  · rw [hkey, if_neg (Nat.not_lt.mpr hshort)]
    rfl

theorem present_single (env : KeyEnv) (name : String) (fields : Members) :
    present [name] fields = if (lastKey env name fields).isSome then none else some .fault := by
  simp [present, isSome_lastKey]

@[simp] theorem note_ddkeys (scan : CustomerScan) (field : CStr × Json) :
    (scan.note field).ddkeys = scan.ddkeys := by
  rw [CustomerScan.note]
  split_ifs <;> rfl

theorem customersFrom_cons (scan : CustomerScan) (field : CStr × Json) (fields : Members) :
    customersFrom scan.customerName scan.customerPubkey (field :: fields) =
      match (scan.note field).customerName, (scan.note field).customerPubkey with
      | some name, some pubkey => (name, pubkey) :: customersFrom none none fields
      | name, pubkey => customersFrom name pubkey fields := by
  rw [customersFrom, CustomerScan.note]
  by_cases hr : field.1 = text "r"
  · simp only [if_pos hr]
    cases field.2.getString.map CStr.ofBytes <;> cases scan.customerPubkey <;> rfl
  · simp only [if_neg hr]
    by_cases hpub : field.1 = text "pubkey"
    · simp only [if_pos hpub]
      cases field.2.getString.map CStr.ofBytes <;> cases scan.customerName <;> rfl
    · simp only [if_neg hpub]
      cases scan.customerPubkey <;> cases scan.customerName <;> rfl

/-- What becomes of a customer that the scan has come to. -/
theorem stop_customerKey {env : KeyEnv} {own : Members} {ddkeys : ReadKeys}
    (hown : OwnKeys env own ddkeys) (name pubkey : CStr) :
    stop (do
      let r ← decodeKey env pubkey.bytes (env.stack name)
      let precalck ← sharedKey env (some r.2) ddkeys.privkey
      return (⟨{ ddkeys with clientkeys := zhashInsert ddkeys.clientkeys name precalck },
        none, none⟩ : CustomerScan)) = customerCheck env own (name, pubkey) := by
  rw [stop_bind (r := present ["privkey"] own), stop_decodeKey, customerCheck]
  · split_ifs <;> rfl
  · intro r _
    rw [stop_bind (r := none) fun _ _ => rfl, stop_sharedKey, Option.or_none, hown.privkey,
      present_single env]
    simp

/-- **A customer's fields**, one after the other. -/
theorem stop_customer {env : KeyEnv} {own : Members} (fields : Members) :
    ∀ scan : CustomerScan, OwnKeys env own scan.ddkeys →
      stop (fields.foldlM (readCustomerField env) scan) =
        (customersFrom scan.customerName scan.customerPubkey fields).findSome?
          (customerCheck env own) := by
  induction fields with
  | nil => exact fun _ _ => rfl
  | cons field fields ih =>
    intro scan hown
    have hown : OwnKeys env own (scan.note field).ddkeys := by rwa [note_ddkeys]
    rw [List.foldlM_cons, customersFrom_cons, readCustomerField]
    generalize scan.note field = scan at hown ⊢
    obtain ⟨ddkeys, name, pubkey⟩ := scan
    cases name with
    | none => exact ih ⟨ddkeys, none, pubkey⟩ hown
    | some name =>
      cases pubkey with
      | none => exact ih ⟨ddkeys, some name, none⟩ hown
      | some pubkey =>
        refine (stop_bind (r := (customersFrom none none fields).findSome? (customerCheck env own))
          fun scan' hscan' => ?_).trans ?_
        · obtain ⟨r, -, hscan'⟩ := bind_eq_ok hscan'
          obtain ⟨precalck, -, hscan'⟩ := bind_eq_ok hscan'
          cases hscan'
          exact ih ⟨_, none, none⟩ ⟨hown.publicpubkey, hown.ddpubkey, hown.privkey, hown.pubkey⟩
        · refine (congrArg (Option.or · _) (stop_customerKey hown name pubkey)).trans ?_
          rw [List.findSome?_cons]
          cases customerCheck env own (name, pubkey) <;> rfl

theorem readCustomerField_keys {env : KeyEnv} {own : Members} {scan scan' : CustomerScan}
    {field : CStr × Json} (h : OwnKeys env own scan.ddkeys)
    (hread : readCustomerField env scan field = .ok scan') : OwnKeys env own scan'.ddkeys := by
  rw [← note_ddkeys scan field] at h
  rw [readCustomerField] at hread
  generalize scan.note field = scan at h hread
  obtain ⟨ddkeys, name, pubkey⟩ := scan
  cases name with
  | none => cases hread; exact h
  | some name =>
    cases pubkey with
    | none => cases hread; exact h
    | some pubkey =>
      obtain ⟨r, -, hread⟩ := bind_eq_ok hread
      obtain ⟨precalck, -, hread⟩ := bind_eq_ok hread
      cases hread
      exact ⟨h.publicpubkey, h.ddpubkey, h.privkey, h.pubkey⟩

theorem stop_readCustomerMember {env : KeyEnv} {own : Members} {ddkeys : ReadKeys}
    (h : OwnKeys env own ddkeys) (member : CStr × Json) :
    stop (readCustomerMember env ddkeys member) =
      if member.1 ≠ text "public" then customerFieldsCheck env own member.2 else none := by
  rw [readCustomerMember]
  split_ifs
  · cases member.2 with
    | object fields printed =>
      refine (stop_bind (r := none)
        (x := fields.foldlM (readCustomerField env) ⟨ddkeys, none, none⟩) fun _ _ => rfl).trans ?_
      rw [Option.or_none]
      exact stop_customer fields ⟨ddkeys, none, none⟩ h
    | _ => rfl
  · rfl

theorem readCustomerMember_keys {env : KeyEnv} {own : Members} {ddkeys ddkeys' : ReadKeys}
    {member : CStr × Json} (h : OwnKeys env own ddkeys)
    (hread : readCustomerMember env ddkeys member = .ok ddkeys') : OwnKeys env own ddkeys' := by
  rw [readCustomerMember] at hread
  split_ifs at hread
  · obtain ⟨fields, -, hread⟩ := bind_eq_ok hread
    obtain ⟨scan, hscan, hread⟩ := bind_eq_ok hread
    cases hread
    exact foldlM_trail (I := fun _ scan => OwnKeys env own scan.ddkeys)
      (fun _ _ _ _ hb hstep => readCustomerField_keys hb hstep) [] h hscan
  · cases hread
    exact h

/-- The three shared keys, of the own keys there are. -/
theorem stop_sharedKeys {env : KeyEnv} {own : Members} {ddkeys : ReadKeys}
    (h : OwnKeys env own ddkeys) :
    stop (do
      let ddboxk ← sharedKey env ddkeys.ddpubkey ddkeys.privkey
      let custboxk ← sharedKey env ddkeys.pubkey ddkeys.privkey
      let pubboxk ← sharedKey env ddkeys.publicpubkey ddkeys.privkey
      return { ddkeys with
        ddboxk := some ddboxk, custboxk := some custboxk, pubboxk := some pubboxk }) =
      present ownNames own := by
  have hpresent : present ownNames own =
      if ddkeys.publicpubkey.isSome ∧ ddkeys.ddpubkey.isSome ∧ ddkeys.privkey.isSome ∧
        ddkeys.pubkey.isSome then none else some .fault := by
    rw [h.publicpubkey, h.ddpubkey, h.privkey, h.pubkey]
    simp only [isSome_lastKey, present, ownNames, List.forall_mem_cons]
    simp
  rw [hpresent]
  obtain ⟨_, sk, pk, ddpk, publicpk, _, _, _, _, _⟩ := ddkeys
  cases sk <;> cases pk <;> cases ddpk <;> cases publicpk <;> rfl

/-- The two passes through a public key file: how they end, and the own keys they leave. -/
theorem publicPasses (env : KeyEnv) (file : Members) (ddkeys : ReadKeys)
    (h : OwnKeys env [] ddkeys) :
    stop (file.foldlM (readPublicMember env) ddkeys >>= file.foldlM (readCustomerMember env)) =
        (file.findSome? fun member =>
          if member.1 = text "public" then fieldsCheck (keyFieldCheck env) member.2 else none).or
        (file.findSome? fun member =>
          if member.1 ≠ text "public" then
            customerFieldsCheck env (fieldsOf (text "public") file) member.2
          else none) ∧
      ∀ ddkeys',
        (file.foldlM (readPublicMember env) ddkeys >>= file.foldlM (readCustomerMember env)) =
          .ok ddkeys' → OwnKeys env (fieldsOf (text "public") file) ddkeys' := by
  have hown : ∀ ddkeys', file.foldlM (readPublicMember env) ddkeys = .ok ddkeys' →
      OwnKeys env (fieldsOf (text "public") file) ddkeys' := fun ddkeys' hread =>
    foldlM_trail (I := fun before k => OwnKeys env (fieldsOf (text "public") before) k)
      (fun _ _ _ _ hb hstep => readPublicMember_keys hb hstep) [] h hread
  constructor
  · rw [← stop_fields (stop_readPublicMember env) file ddkeys]
    refine stop_bind fun ddkeys' hread => ?_
    exact stop_foldlM (P := OwnKeys env (fieldsOf (text "public") file))
      (fun _ m hk => stop_readCustomerMember hk m)
      (fun _ _ _ hk hstep => readCustomerMember_keys hk hstep) file ddkeys' (hown ddkeys' hread)
  · intro ddkeys'' hread
    obtain ⟨ddkeys', hread, hread'⟩ := bind_eq_ok hread
    exact foldlM_trail (I := fun _ k => OwnKeys env (fieldsOf (text "public") file) k)
      (fun _ _ _ _ hb hstep => readCustomerMember_keys hb hstep) [] (hown ddkeys' hread) hread'

/-- **How reading a client's file ends.** -/
theorem stop_ddKeysRead (env : KeyEnv) (file : Members) :
    stop (ddKeysRead env file) = clientCheck env file := by
  rw [ddKeysRead, clientCheck, ← isPublic]
  by_cases hpublic : isPublic file = true
  · simp only [if_pos hpublic]
    obtain ⟨hstop, hown⟩ := publicPasses env file
      ⟨isPublic file, none, none, none, none, none, none, none, none, []⟩ ⟨rfl, rfl, rfl, rfl⟩
    rw [← Option.or_assoc, ← hstop, ← bind_assoc]
    exact stop_bind fun ddkeys hread => stop_sharedKeys (hown ddkeys hread)
  · simp only [if_neg hpublic]
    rw [← stop_fields (stop_readKeyField env) file
      ⟨isPublic file, none, none, none, none, none, none, none, none, []⟩]
    exact stop_bind fun ddkeys hread => stop_sharedKeys
      (foldlM_trail (I := OwnKeys env) (fun _ _ _ _ hb hstep => readKeyField_keys hb hstep) []
        ⟨rfl, rfl, rfl, rfl⟩ hread)

/-! ## When the reading is right -/

/-- **Key files are read as they should be** if and only if the first thing in the file that ends
the reading is one that is noticed, or there is none and the file is complete. -/
theorem readRight_iff (env : KeyEnv) (file : Members) :
    ReadRight env file ↔
      Fits (brokerCheck env file) (BrokerComplete file) ∧
        Fits (clientCheck env file) (ClientComplete file) := by
  rw [← right_iff_of_stop (stop_readDdbrokerkeys env file),
    ← right_iff_of_stop (stop_ddKeysRead env file)]
  exact ⟨fun h => ⟨h.broker, h.client⟩, fun h => ⟨h.1, h.2⟩⟩

/-- A build with zeros behind its arrays, and keys that are shared by taking one of them. -/
def zeroKeyEnv : KeyEnv where
  behind := ⟨0, 0⟩
  stack := fun _ => zeroKey
  beforenm := fun pk _ => some (pk.toList.take 32)

/-- A key of `n` characters. -/
def keyOfSize (n : ℕ) : Json := .string (List.replicate n 66)

/-- A broker's file with one tenant. -/
def brokerFile (tenant : Members) : Members :=
  [(text "dd", .object [(text "privkey", keyOfSize 43), (text "pubkey", keyOfSize 43),
      (text "R", .string (CStr.ascii "7"))] ∅),
    (text "h", .object tenant ∅)]

/-- A tenant without a number is accepted. -/
theorem not_readRight : ¬ ∀ env file, ReadRight env file := by
  intro h
  let file := brokerFile [(text "r", .string (CStr.ascii "a")), (text "pubkey", keyOfSize 43)]
  have hstop : stop (readDdbrokerkeys zeroKeyEnv file) = none := by decide +kernel
  have hright := (h zeroKeyEnv file).broker
  cases hread : readDdbrokerkeys zeroKeyEnv file with
  | error e =>
    rw [hread] at hstop
    cases hstop
  | ok ddkeys =>
    rw [hread] at hright
    obtain ⟨fields, printed, hfields, htenant⟩ :=
      BrokerComplete.tenants hright _ (List.mem_cons_of_mem _ List.mem_cons_self) (by decide)
    cases hfields
    exact htenant.R.1 (by decide)

/-- A key of 45 characters is written past the end of its memory. -/
example : stop (readDdbrokerkeys zeroKeyEnv (brokerFile [(text "pubkey", keyOfSize 45)])) =
    some .fault := by decide +kernel

end DoubleDecker
