import DoubleDecker.Client.Keys
import DoubleDecker.Keys.Written

/-!
# Keys/Contents — what is read of a file

A file says some keys when its members and fields, in any order and among others, have them in
letters.  What `dd_keys_new` and `read_ddbrokerkeys` return for it are the keys it says, and the
shared keys of these: the abstract reading `ddKeysNew` of the tenants' files, and the tables a
broker starts with.
-/

namespace DoubleDecker

/-! ## Files that say keys -/

/-- A string with the letters of the key. -/
def Spells (key : Vector UInt8 32) (val : Json) : Prop :=
  ∃ s, val = .string s ∧ KeyText key.toList s

/-- The keys of a client. -/
structure OwnFile where
  publicpubkey : Vector UInt8 32
  ddpubkey : Vector UInt8 32
  privkey : Vector UInt8 32
  pubkey : Vector UInt8 32
  hash : CStr

/-- The fields say the keys of a client. -/
structure OwnFile.In (own : OwnFile) (fields : Members) : Prop where
  publicpubkey : Has "publicpubkey" (Spells own.publicpubkey) fields
  ddpubkey : Has "ddpubkey" (Spells own.ddpubkey) fields
  privkey : Has "privkey" (Spells own.privkey) fields
  pubkey : Has "pubkey" (Spells own.pubkey) fields
  hash : Has "hash" (· = .string own.hash.bytes) fields

/-- The fields say the name and the key of one customer. -/
structure CustomerIn (customer : CStr × Vector UInt8 32) (fields : Members) : Prop where
  r : values (text "r") fields = [.string customer.1.bytes]
  pubkey : ∃ s : CStr, values (text "pubkey") fields = [.string s.bytes] ∧
    KeyText customer.2.toList s.bytes

/-- The contents of a client's file. -/
structure ClientFile where
  ispublic : Bool
  own : OwnFile
  customers : List (CStr × Vector UInt8 32)

/-- The members other than those with a name. -/
def others (name : String) (file : Members) : Members := file.filter (·.1 ≠ text name)

/-- **The file says these keys.** -/
structure ClientFile.In (contents : ClientFile) (file : Members) : Prop where
  ispublic : isPublic file = contents.ispublic
  own : contents.ispublic = false → contents.own.In file
  ownPublic : contents.ispublic = true → Has "public" (IsObject contents.own.In) file
  customers : contents.ispublic = true → List.Forall₂
    (fun customer member => IsObject (CustomerIn customer) member.2) contents.customers
    (others "public" file)

/-! ## The own keys -/

/-- There is a field with the name. -/
def seen (name : String) (fields : Members) : Bool := fields.any (·.1 = text name)

/-- The key of a field, once the field was gone through. -/
def seenKey (name : String) (key : Vector UInt8 32) (fields : Members) : Option KeyBuffer :=
  if seen name fields then some (key.push 0) else none

/-- The own keys after some fields. -/
def OwnFile.read (own : OwnFile) (ddkeys : ReadKeys) (fields : Members) : ReadKeys :=
  { ddkeys with
    publicpubkey := seenKey "publicpubkey" own.publicpubkey fields
    ddpubkey := seenKey "ddpubkey" own.ddpubkey fields
    privkey := seenKey "privkey" own.privkey fields
    pubkey := seenKey "pubkey" own.pubkey fields
    hash := if seen "hash" fields then some own.hash else none }

theorem checkedKey_spells (env : KeyEnv) {key : Vector UInt8 32} {val : Json} (h : Spells key val)
    (out : KeyBuffer) : checkedKey env val out = .ok (key.push 0) := by
  obtain ⟨s, rfl, hs⟩ := h
  have htake : keyText (.string s) = s := List.take_length
  rw [checkedKey, ← keyText, htake, decodeKey_of_keyText env hs out]
  rfl

theorem Has.value {name : String} {p : Json → Prop} {fields : Members} (h : Has name p fields)
    {field : CStr × Json} (hmem : field ∈ fields) (hname : field.1 = text name) : p field.2 :=
  h.2 _ (List.mem_map.mpr ⟨field, List.mem_filter.mpr ⟨hmem, decide_eq_true hname⟩, rfl⟩)

theorem Has.seen {name : String} {p : Json → Prop} {fields : Members} (h : Has name p fields) :
    seen name fields = true := by
  obtain ⟨val, hval⟩ := List.exists_mem_of_ne_nil _ h.1
  obtain ⟨field, hfield, -⟩ := List.mem_map.mp hval
  obtain ⟨hmem, hname⟩ := List.mem_filter.mp hfield
  exact List.any_eq_true.mpr ⟨field, hmem, hname⟩

theorem seen_concat (name : String) (fields : Members) (field : CStr × Json) :
    seen name (fields ++ [field]) = (seen name fields || decide (field.1 = text name)) := by
  simp [seen]

/-- A field that says what the file says. -/
structure OwnFile.Field (own : OwnFile) (field : CStr × Json) : Prop where
  publicpubkey : field.1 = text "publicpubkey" → Spells own.publicpubkey field.2
  ddpubkey : field.1 = text "ddpubkey" → Spells own.ddpubkey field.2
  privkey : field.1 = text "privkey" → Spells own.privkey field.2
  pubkey : field.1 = text "pubkey" → Spells own.pubkey field.2
  hash : field.1 = text "hash" → field.2 = .string own.hash.bytes

theorem OwnFile.In.field {own : OwnFile} {fields : Members} (h : own.In fields)
    {field : CStr × Json} (hmem : field ∈ fields) : own.Field field :=
  ⟨h.publicpubkey.value hmem, h.ddpubkey.value hmem, h.privkey.value hmem, h.pubkey.value hmem,
    h.hash.value hmem⟩

/-- **One of the own fields.** -/
theorem readKeyField_in (env : KeyEnv) {own : OwnFile} (ddkeys : ReadKeys) {field : CStr × Json}
    (h : own.Field field) (before : Members) :
    readKeyField env (own.read ddkeys before) field =
      .ok (own.read ddkeys (before ++ [field])) := by
  rw [readKeyField]
  split_ifs with h₁ h₂ h₃ h₄ h₅
  · rw [checkedKey_spells env (h.publicpubkey h₁)]
    simp +decide [OwnFile.read, seenKey, seen_concat, h₁, bind, Except.bind, pure, Except.pure]
  · rw [checkedKey_spells env (h.ddpubkey h₂)]
    simp +decide [OwnFile.read, seenKey, seen_concat, h₂, bind, Except.bind, pure, Except.pure]
  · rw [checkedKey_spells env (h.privkey h₃)]
    simp +decide [OwnFile.read, seenKey, seen_concat, h₃, bind, Except.bind, pure, Except.pure]
  · rw [checkedKey_spells env (h.pubkey h₄)]
    simp +decide [OwnFile.read, seenKey, seen_concat, h₄, bind, Except.bind, pure, Except.pure]
  · rw [h.hash h₅]
    simp +decide [OwnFile.read, seenKey, seen_concat, h₅, bind, Except.bind, pure, Except.pure,
      Json.cstr, Json.getString]
  · simp [OwnFile.read, seenKey, seen_concat, h₁, h₂, h₃, h₄, h₅, pure, Except.pure]

/-- The own fields, one after the other. -/
theorem readKeyFields_in (env : KeyEnv) {own : OwnFile} (ddkeys : ReadKeys) {fields : Members}
    (h : own.In fields) (before : Members) :
    fields.foldlM (readKeyField env) (own.read ddkeys before) =
      .ok (own.read ddkeys (before ++ fields)) :=
  foldlM_eq_ok (own.read ddkeys) before fun _ _ _ hsplit =>
    readKeyField_in env ddkeys (h.field (hsplit ▸ List.mem_append_right _ List.mem_cons_self)) _

/-- A member of a public key file, in the pass that finds `public`. -/
theorem readPublicMember_in (env : KeyEnv) {own : OwnFile} (ddkeys : ReadKeys)
    {member : CStr × Json} (h : member.1 = text "public" → IsObject own.In member.2)
    (before : Members) :
    readPublicMember env (own.read ddkeys (fieldsOf (text "public") before)) member =
      .ok (own.read ddkeys (fieldsOf (text "public") (before ++ [member]))) := by
  rw [readPublicMember, fieldsOf_append]
  split_ifs with hname
  · obtain ⟨fields, printed, hval, hin⟩ := h hname
    have hone : fieldsOf (text "public") [member] = fields := by
      rw [fieldsOf, values_single, if_pos hname, hval]
      exact List.flatMap_singleton _ _
    rw [hval, hone]
    exact readKeyFields_in env ddkeys hin _
  · have hnone : fieldsOf (text "public") [member] = [] := by
      rw [fieldsOf, values_single, if_neg hname, List.flatMap_nil]
    rw [hnone, List.append_nil]
    rfl

/-- When every name was gone through the own keys are those of the file. -/
def OwnFile.keys (own : OwnFile) (ddkeys : ReadKeys) : ReadKeys :=
  { ddkeys with
    publicpubkey := some (own.publicpubkey.push 0)
    ddpubkey := some (own.ddpubkey.push 0)
    privkey := some (own.privkey.push 0)
    pubkey := some (own.pubkey.push 0)
    hash := some own.hash }

theorem OwnFile.In.read_eq {own : OwnFile} {fields : Members} (h : own.In fields)
    (ddkeys : ReadKeys) : own.read ddkeys fields = own.keys ddkeys := by
  simp [OwnFile.read, OwnFile.keys, seenKey, h.publicpubkey.seen, h.ddpubkey.seen, h.privkey.seen,
    h.pubkey.seen, h.hash.seen]

theorem mem_values {name : CStr} {members : Members} {val : Json} :
    val ∈ values name members ↔ (name, val) ∈ members := by
  simp [values, and_comm]

/-- What each of the members with a name says, their fields together do. -/
theorem Has.fieldsOf {outer name : String} {p : Json → Prop} {file : Members}
    (h : Has outer (IsObject (Has name p)) file) : Has name p (fieldsOf (text outer) file) := by
  constructor
  · obtain ⟨val, hval⟩ := List.exists_mem_of_ne_nil _ h.1
    obtain ⟨fields, printed, rfl, hfields⟩ := h.2 val hval
    obtain ⟨inner, hinner⟩ := List.exists_mem_of_ne_nil _ hfields.1
    have hmem : inner ∈ values (text name) (DoubleDecker.fieldsOf (text outer) file) :=
      mem_values.mpr (List.mem_flatMap.mpr ⟨_, hval, mem_values.mp hinner⟩)
    exact List.ne_nil_of_mem hmem
  · intro inner hinner
    obtain ⟨val, hval, hmem⟩ := List.mem_flatMap.mp (mem_values.mp hinner)
    obtain ⟨fields, printed, rfl, hfields⟩ := h.2 val hval
    exact hfields.2 inner (mem_values.mpr hmem)

theorem Has.imp {name : String} {p q : Json → Prop} {members : Members} (h : Has name p members)
    (himp : ∀ val, p val → q val) : Has name q members :=
  ⟨h.1, fun val hval => himp val (h.2 val hval)⟩

theorem IsObject.imp {p q : Members → Prop} {val : Json} (h : IsObject p val)
    (himp : ∀ members, p members → q members) : IsObject q val := by
  obtain ⟨members, printed, hval, hp⟩ := h
  exact ⟨members, printed, hval, himp members hp⟩

/-- All members `public` together say what each of them does. -/
theorem OwnFile.in_fieldsOf {own : OwnFile} {file : Members}
    (h : Has "public" (IsObject own.In) file) : own.In (fieldsOf (text "public") file) where
  publicpubkey := (h.imp fun _ hv => hv.imp fun _ hin => hin.publicpubkey).fieldsOf
  ddpubkey := (h.imp fun _ hv => hv.imp fun _ hin => hin.ddpubkey).fieldsOf
  privkey := (h.imp fun _ hv => hv.imp fun _ hin => hin.privkey).fieldsOf
  pubkey := (h.imp fun _ hv => hv.imp fun _ hin => hin.pubkey).fieldsOf
  hash := (h.imp fun _ hv => hv.imp fun _ hin => hin.hash).fieldsOf

/-! ## The customers -/

/-- `crypto_box_beforenm` of a public and a secret key in their memory. -/
def boxk (env : KeyEnv) (pk sk : Vector UInt8 32) : List UInt8 :=
  (env.beforenm (pk.push 0) (sk.push 0)).getD zeroBoxk

/-- The client keys with one more customer. -/
def addCustomer (env : KeyEnv) (sk : Vector UInt8 32) (ddkeys : ReadKeys)
    (customer : CStr × Vector UInt8 32) : ReadKeys :=
  { ddkeys with
    clientkeys := zhashInsert ddkeys.clientkeys customer.1 (boxk env customer.2 sk) }

/-- Where the loop over a customer's fields is: with the second of the name and the key the customer
is entered. -/
def customerScan (env : KeyEnv) (sk : Vector UInt8 32) (ddkeys : ReadKeys)
    (customer : CStr × Vector UInt8 32) (s : CStr) (fields : Members) : CustomerScan :=
  match seen "r" fields, seen "pubkey" fields with
  | true, true => ⟨addCustomer env sk ddkeys customer, none, none⟩
  | true, false => ⟨ddkeys, some customer.1, none⟩
  | false, true => ⟨ddkeys, none, some s⟩
  | false, false => ⟨ddkeys, none, none⟩

theorem seen_eq_false {name : String} {fields : Members} :
    seen name fields = false ↔ values (text name) fields = [] := by
  simp [seen, values]

/-- A field that is there once was not seen before. -/
theorem not_seen_of_once {name : String} {before after : Members} {field : CStr × Json} {val : Json}
    (h : values (text name) (before ++ field :: after) = [val]) (hname : field.1 = text name) :
    seen name before = false ∧ field.2 = val := by
  rw [List.append_cons, values_append, values_append, values_single, if_pos hname,
    List.append_assoc, List.singleton_append] at h
  have hlen := congrArg List.length h
  rw [List.length_append, List.length_cons, List.length_singleton] at hlen
  have hbefore : values (text name) before = [] := List.length_eq_zero_iff.mp (by omega)
  rw [hbefore, List.nil_append, List.cons.injEq] at h
  exact ⟨seen_eq_false.mpr hbefore, h.1⟩

/-- **One field of a customer.** -/
theorem readCustomerField_in (env : KeyEnv) {sk : Vector UInt8 32} {ddkeys : ReadKeys}
    (hsk : ddkeys.privkey = some (sk.push 0)) {customer : CStr × Vector UInt8 32} {s : CStr}
    (hs : KeyText customer.2.toList s.bytes) {before after : Members} {field : CStr × Json}
    (hr : values (text "r") (before ++ field :: after) = [.string customer.1.bytes])
    (hpub : values (text "pubkey") (before ++ field :: after) = [.string s.bytes]) :
    readCustomerField env (customerScan env sk ddkeys customer s before) field =
      .ok (customerScan env sk ddkeys customer s (before ++ [field])) := by
  have hne : text "r" ≠ text "pubkey" := by decide
  have hdecode := decodeKey_of_keyText env hs (env.stack customer.1)
  have hshare : sharedKey env (some (customer.2.push 0)) ddkeys.privkey =
      .ok (boxk env customer.2 sk) := by rw [hsk]; rfl
  have henter : (do
      let r ← decodeKey env s.bytes (env.stack customer.1)
      let precalck ← sharedKey env (some r.2) ddkeys.privkey
      return (⟨{ ddkeys with clientkeys := zhashInsert ddkeys.clientkeys customer.1 precalck },
        none, none⟩ : CustomerScan)) = .ok ⟨addCustomer env sk ddkeys customer, none, none⟩ := by
    rw [hdecode]
    change sharedKey env (some (customer.2.push 0)) ddkeys.privkey >>= _ = _
    rw [hshare]
    rfl
  rw [readCustomerField, customerScan, customerScan, seen_concat, seen_concat]
  by_cases h₁ : field.1 = text "r"
  · obtain ⟨hseen, hval⟩ := not_seen_of_once hr h₁
    have h₂ : field.1 ≠ text "pubkey" := h₁ ▸ hne
    cases hkey : seen "pubkey" before with
    | true =>
      simp only [hseen, h₁, hne, CustomerScan.note, hval, decide_true, decide_false, Bool.or_true,
        Bool.or_false, if_true, Json.getString, Option.map_some, CStr.ofBytes_bytes]
      exact henter
    | false =>
      simp only [hseen, h₁, hne, CustomerScan.note, hval, decide_true, decide_false, Bool.or_true,
        Bool.or_false, if_true, Json.getString, Option.map_some, CStr.ofBytes_bytes]
      rfl
  · by_cases h₂ : field.1 = text "pubkey"
    · obtain ⟨hseen, hval⟩ := not_seen_of_once hpub h₂
      cases hkey : seen "r" before with
      | true =>
        simp only [hseen, h₂, hne.symm, CustomerScan.note, hval, decide_true, decide_false,
          Bool.or_true, Bool.or_false, if_true, if_false, Json.getString, Option.map_some,
          CStr.ofBytes_bytes]
        exact henter
      | false =>
        simp only [hseen, h₂, hne.symm, CustomerScan.note, hval, decide_true, decide_false,
          Bool.or_true, Bool.or_false, if_true, if_false, Json.getString, Option.map_some,
          CStr.ofBytes_bytes]
        rfl
    · simp only [h₁, h₂, decide_false, Bool.or_false, CustomerScan.note, if_false]
      cases seen "r" before <;> cases seen "pubkey" before <;> rfl

/-- **One customer.** -/
theorem readCustomerFields_in (env : KeyEnv) {sk : Vector UInt8 32} {ddkeys : ReadKeys}
    (hsk : ddkeys.privkey = some (sk.push 0)) {customer : CStr × Vector UInt8 32}
    {fields : Members} (h : CustomerIn customer fields) :
    fields.foldlM (readCustomerField env) ⟨ddkeys, none, none⟩ =
      .ok ⟨addCustomer env sk ddkeys customer, none, none⟩ := by
  obtain ⟨s, hpub, hs⟩ := h.pubkey
  have hread : fields.foldlM (readCustomerField env) (customerScan env sk ddkeys customer s []) =
      .ok (customerScan env sk ddkeys customer s ([] ++ fields)) :=
    foldlM_eq_ok (customerScan env sk ddkeys customer s) [] fun before field after hsplit => by
      rw [List.nil_append]
      exact readCustomerField_in env hsk hs (hsplit ▸ h.r) (hsplit ▸ hpub)
  have hend : customerScan env sk ddkeys customer s fields =
      ⟨addCustomer env sk ddkeys customer, none, none⟩ := by
    have hr : seen "r" fields = true := by
      by_contra hno
      rw [Bool.not_eq_true, seen_eq_false, h.r] at hno
      cases hno
    have hp : seen "pubkey" fields = true := by
      by_contra hno
      rw [Bool.not_eq_true, seen_eq_false, hpub] at hno
      cases hno
    rw [customerScan, hr, hp]
  rw [List.nil_append, hend] at hread
  exact hread

/-- **All customers**, in file order, and no member that is not one. -/
theorem readCustomers_in (env : KeyEnv) {sk : Vector UInt8 32} (file : Members) :
    ∀ {customers : List (CStr × Vector UInt8 32)} {ddkeys : ReadKeys},
      ddkeys.privkey = some (sk.push 0) →
      List.Forall₂ (fun customer member => IsObject (CustomerIn customer) member.2) customers
        (others "public" file) →
      file.foldlM (readCustomerMember env) ddkeys =
        .ok (customers.foldl (addCustomer env sk) ddkeys) := by
  induction file with
  | nil =>
    intro customers ddkeys _ h
    cases h
    rfl
  | cons member file ih =>
    intro customers ddkeys hsk h
    rw [List.foldlM_cons, readCustomerMember]
    by_cases hname : member.1 = text "public"
    · rw [others, List.filter_cons_of_neg (by simpa using hname)] at h
      rw [if_neg (not_not.mpr hname)]
      exact ih hsk h
    · rw [others, List.filter_cons_of_pos (by simpa using hname)] at h
      rw [if_pos hname]
      cases h with
      | cons hmember hrest =>
        obtain ⟨fields, printed, hval, hin⟩ := hmember
        rw [hval, Json.foreach]
        change ((fields.foldlM (readCustomerField env) ⟨ddkeys, none, none⟩ >>= _) >>= _) = _
        rw [readCustomerFields_in env hsk hin]
        exact ih hsk hrest

/-- The shared keys of a client that has its own keys. -/
def OwnFile.shared (env : KeyEnv) (own : OwnFile) (ddkeys : ReadKeys) : ReadKeys :=
  { ddkeys with
    ddboxk := some (boxk env own.ddpubkey own.privkey)
    custboxk := some (boxk env own.pubkey own.privkey)
    pubboxk := some (boxk env own.publicpubkey own.privkey) }

/-- Before anything is read. -/
def noKeys (ispublic : Bool) : ReadKeys :=
  ⟨ispublic, none, none, none, none, none, none, none, none, []⟩

/-- The keys a file says, as they are read. -/
def ClientFile.keys (env : KeyEnv) (contents : ClientFile) : ReadKeys :=
  let own := contents.own.keys (noKeys contents.ispublic)
  contents.own.shared env <| if contents.ispublic then
    contents.customers.foldl (addCustomer env contents.own.privkey) own else own

/-- The customers leave the own keys. -/
theorem addCustomers_eq (env : KeyEnv) (sk : Vector UInt8 32)
    (customers : List (CStr × Vector UInt8 32)) (ddkeys : ReadKeys) :
    customers.foldl (addCustomer env sk) ddkeys = { ddkeys with
      clientkeys := customers.foldl (fun keys c => zhashInsert keys c.1 (boxk env c.2 sk))
        ddkeys.clientkeys } := by
  induction customers generalizing ddkeys with
  | nil => rfl
  | cons customer customers ih => rw [List.foldl_cons, ih, List.foldl_cons, addCustomer]

/-- The three shared keys, of own keys that are there. -/
theorem sharedKeys_eq (env : KeyEnv) {own : OwnFile} {ddkeys : ReadKeys}
    (h : own.keys ddkeys = ddkeys) :
    (do
      let ddboxk ← sharedKey env ddkeys.ddpubkey ddkeys.privkey
      let custboxk ← sharedKey env ddkeys.pubkey ddkeys.privkey
      let pubboxk ← sharedKey env ddkeys.publicpubkey ddkeys.privkey
      return { ddkeys with
        ddboxk := some ddboxk, custboxk := some custboxk, pubboxk := some pubboxk }) =
      (.ok (own.shared env ddkeys) : Except Stop ReadKeys) := by
  rw [← h]
  rfl

/-- **What `dd_keys_new` returns** for a file that says some keys. -/
theorem ddKeysRead_in (env : KeyEnv) {contents : ClientFile} {file : Members}
    (h : contents.In file) : ddKeysRead env file = .ok (contents.keys env) := by
  rw [ddKeysRead, ← isPublic, h.ispublic, ClientFile.keys]
  cases hpublic : contents.ispublic with
  | true =>
    have hown := OwnFile.in_fieldsOf (h.ownPublic hpublic)
    have hpass : file.foldlM (readPublicMember env) (noKeys true) =
        .ok (contents.own.keys (noKeys true)) := by
      rw [← hown.read_eq]
      refine foldlM_eq_ok (fun before => contents.own.read (noKeys true)
        (fieldsOf (text "public") before)) [] fun before member after hsplit => ?_
      have hmem : member ∈ file := hsplit ▸ List.mem_append_right _ List.mem_cons_self
      exact readPublicMember_in env _ ((h.ownPublic hpublic).value hmem) _
    rw [if_pos rfl, if_pos rfl, ← noKeys, hpass]
    change (file.foldlM (readCustomerMember env) _ >>= _) = _
    rw [readCustomers_in env file rfl (h.customers hpublic)]
    refine sharedKeys_eq env ?_
    rw [addCustomers_eq]
    rfl
  | false =>
    have hpass : file.foldlM (readKeyField env) (noKeys false) =
        .ok (contents.own.keys (noKeys false)) := by
      rw [← (h.own hpublic).read_eq]
      exact readKeyFields_in env (noKeys false) (h.own hpublic) []
    rw [if_neg Bool.false_ne_true, if_neg Bool.false_ne_true, ← noKeys, hpass]
    have hown : contents.own.keys (contents.own.keys (noKeys false)) =
      contents.own.keys (noKeys false) := rfl
    exact sharedKeys_eq env hown

/-! ## The abstract reading -/

/-- The file as the abstract reading takes it. -/
def ClientFile.keyFile (contents : ClientFile) : KeyFile where
  ispublic := contents.ispublic
  publicpubkey := contents.own.publicpubkey.toList
  ddpubkey := contents.own.ddpubkey.toList
  privkey := contents.own.privkey.toList
  pubkey := contents.own.pubkey.toList
  hash := contents.own.hash
  customers := contents.customers.map fun customer => (customer.1, customer.2.toList)

/-- **The keys that were read** are these, and the table of a public client answers alike. -/
structure Loads (read : ReadKeys) (keys : DdKeys) : Prop where
  ispublic : read.ispublic = keys.ispublic
  hash : read.hash = some keys.hash
  ddboxk : read.ddboxk = some keys.ddboxk
  custboxk : read.custboxk = some keys.custboxk
  pubboxk : read.pubboxk = some keys.pubboxk
  clientkeys : ∀ name, read.clientkeys.lookup name = keys.clientkeys.lookup name

theorem lookup_zhashInsert {α : Type} (hash : List (CStr × α)) (key : CStr) (item : α)
    (name : CStr) : (zhashInsert hash key item).lookup name =
      (hash.lookup name).or (List.lookup name [(key, item)]) := by
  rw [zhashInsert]
  split_ifs with h
  · obtain ⟨old, hold⟩ := Option.isSome_iff_exists.mp h
    by_cases hname : name = key
    · rw [hname, hold, Option.some_or]
    · rw [List.lookup_cons, beq_eq_false_iff_ne.mpr hname, List.lookup_nil, Option.or_none]
  · exact List.lookup_append

/-- Inserted one after the other, the first of a name is the one that is found. -/
theorem lookup_foldl_zhashInsert {α β : Type} (key : β → CStr) (item : β → α) (l : List β)
    (hash : List (CStr × α)) (name : CStr) :
    (l.foldl (fun h b => zhashInsert h (key b) (item b)) hash).lookup name =
      (hash.lookup name).or ((l.map fun b => (key b, item b)).lookup name) := by
  induction l generalizing hash with
  | nil => rw [List.foldl_nil, List.map_nil, List.lookup_nil, Option.or_none]
  | cons b l ih =>
    rw [List.foldl_cons, ih, lookup_zhashInsert, Option.or_assoc, ← List.lookup_append]
    rfl

/-- The public keys of a client's file, each of which is shared with its secret key. -/
def ClientFile.pubkeys (contents : ClientFile) : List (Vector UInt8 32) :=
  [contents.own.ddpubkey, contents.own.pubkey, contents.own.publicpubkey] ++
    contents.customers.map Prod.snd

/-- **Reading a client's file is the abstract reading**: of every file that says some keys, in
whatever order and among whatever else, `dd_keys_new` makes the keys that `ddKeysNew` computes of
them. -/
theorem ddKeysRead_loads (env : KeyEnv) (beforenm : Frame → Frame → Frame) {contents : ClientFile}
    (hbox : ∀ pk ∈ contents.pubkeys, env.beforenm (pk.push 0) (contents.own.privkey.push 0) =
      some (beforenm pk.toList contents.own.privkey.toList))
    {file : Members} (h : contents.In file) :
    ∃ read, ddKeysRead env file = .ok read ∧
      Loads read (ddKeysNew beforenm contents.keyFile) := by
  have hboxk {pk : Vector UInt8 32} (hmem : pk ∈ contents.pubkeys) :
      boxk env pk contents.own.privkey = beforenm pk.toList contents.own.privkey.toList := by
    rw [boxk, hbox pk hmem, Option.getD_some]
  have hdd : contents.own.ddpubkey ∈ contents.pubkeys := by simp [ClientFile.pubkeys]
  have hcust : contents.own.pubkey ∈ contents.pubkeys := by simp [ClientFile.pubkeys]
  have hpub : contents.own.publicpubkey ∈ contents.pubkeys := by simp [ClientFile.pubkeys]
  refine ⟨_, ddKeysRead_in env h, ?_⟩
  rw [ClientFile.keys]
  cases hpublic : contents.ispublic with
  | true =>
    have hcustomers : contents.customers.map (fun c => (c.1, boxk env c.2 contents.own.privkey)) =
        contents.customers.map fun c =>
          (c.1, beforenm c.2.toList contents.own.privkey.toList) :=
      List.map_congr_left fun c hc => congrArg (Prod.mk c.1)
        (hboxk (List.mem_append_right _ (List.mem_map_of_mem hc)))
    rw [if_pos rfl, addCustomers_eq]
    refine ⟨hpublic.symm, rfl, congrArg some (hboxk hdd), congrArg some (hboxk hcust),
      congrArg some (hboxk hpub), fun name => ?_⟩
    refine (lookup_foldl_zhashInsert (fun c : CStr × Vector UInt8 32 => c.1)
      (fun c => boxk env c.2 contents.own.privkey) contents.customers [] name).trans ?_
    rw [List.lookup_nil, Option.none_or, hcustomers, ddKeysNew, ClientFile.keyFile]
    simp only [hpublic, if_true, List.map_map]
    rfl
  | false =>
    rw [if_neg Bool.false_ne_true]
    refine ⟨hpublic.symm, rfl, congrArg some (hboxk hdd), congrArg some (hboxk hcust),
      congrArg some (hboxk hpub), fun name => ?_⟩
    rw [ddKeysNew, ClientFile.keyFile]
    simp only [hpublic, if_neg Bool.false_ne_true]
    rfl

/-- Keys that are shared by adding them up. -/
def sumKeyEnv : KeyEnv :=
  { zeroKeyEnv with
    beforenm := fun pk sk =>
      some (List.zipWith (· + ·) (pk.toList.take 32) (sk.toList.take 32)) }

theorem beforenm_sumKeyEnv (pk sk : Vector UInt8 32) :
    sumKeyEnv.beforenm (pk.push 0) (sk.push 0) =
      some (List.zipWith (· + ·) pk.toList sk.toList) := by
  have htake (key : Vector UInt8 32) : (key.push 0).toList.take 32 = key.toList := by
    rw [Vector.toList_push]
    exact List.take_left' key.length_toList
  simp only [sumKeyEnv, htake]

/-- A key that is one byte all over. -/
def demoKey (x : UInt8) : Vector UInt8 32 := Vector.replicate 32 x

/-- Its text. -/
def demoText (x : UInt8) : CStr := CStr.ofBytes (base64Text (demoKey x).toList)

/-- A file of a public client, the member `public` behind that of its one customer. -/
def demoPublicFile : Members :=
  [(text "a1", .object [(text "pubkey", .string (demoText 2).bytes),
      (text "r", .string (text "a").bytes)] ∅),
    (text "public", .object [(text "hash", .string (text "a0").bytes),
      (text "publicpubkey", .string (demoText 1).bytes),
      (text "ddpubkey", .string (demoText 3).bytes),
      (text "privkey", .string (demoText 4).bytes),
      (text "name", .string (text "public").bytes),
      (text "pubkey", .string (demoText 1).bytes)] ∅)]

/-- What it says. -/
def demoPublic : ClientFile where
  ispublic := true
  own := ⟨demoKey 1, demoKey 3, demoKey 4, demoKey 1, text "a0"⟩
  customers := [(text "a", demoKey 2)]

theorem keyText_demo {x : UInt8} (hx : x = 1 ∨ x = 2 ∨ x = 3 ∨ x = 4) :
    KeyText (demoKey x).toList (demoText x).bytes := by
  obtain rfl | rfl | rfl | rfl := hx <;> exact ⟨by decide +kernel, by decide +kernel⟩

theorem Has.of_values {name : String} {p : Json → Prop} {members : Members} {val : Json}
    (h : values (text name) members = [val]) (hp : p val) : Has name p members := by
  rw [Has, h]
  exact ⟨List.cons_ne_nil _ _, fun _ hmem => List.mem_singleton.mp hmem ▸ hp⟩

theorem spells_demo {x : UInt8} (hx : x = 1 ∨ x = 2 ∨ x = 3 ∨ x = 4) :
    Spells (demoKey x) (.string (demoText x).bytes) := ⟨_, rfl, keyText_demo hx⟩

theorem demoPublic_in : demoPublic.In demoPublicFile where
  ispublic := by decide
  own h := absurd h (by decide)
  ownPublic _ := .of_values rfl ⟨_, _, rfl,
    ⟨.of_values rfl (spells_demo (by decide)), .of_values rfl (spells_demo (by decide)),
      .of_values rfl (spells_demo (by decide)), .of_values rfl (spells_demo (by decide)),
      .of_values rfl rfl⟩⟩
  customers _ := .cons ⟨_, _, rfl, ⟨rfl, _, rfl, keyText_demo (by decide)⟩⟩ .nil

/-- A public client with one customer. -/
theorem ddKeysRead_loads_public : ∃ read, ddKeysRead sumKeyEnv demoPublicFile = .ok read ∧
    Loads read (ddKeysNew (List.zipWith (· + ·)) demoPublic.keyFile) :=
  ddKeysRead_loads sumKeyEnv (List.zipWith (· + ·)) (fun _ _ => beforenm_sumKeyEnv _ _)
    demoPublic_in

end DoubleDecker
