import DoubleDecker.Keys.Base64
import DoubleDecker.Library.CString
import DoubleDecker.Library.Stops
import Mathlib.Algebra.Group.Nat.Defs

/-!
# Keys/Files — reading the key files

`read_ddbrokerkeys` and `dd_keys_new`, from the object that json-c makes of the file on.  Both go
through the members in file order and return `NULL` at the first key that does not decode to 32
bytes; a member that is absent is noticed by neither, nor is the size of the tenants' keys in a
public key file.

`crypto_box_beforenm` and the memory that is read before it is written are parameters (`KeyEnv`).
-/

namespace DoubleDecker

/-! ## JSON values -/

/-- A value of json-c; a number, a boolean, an array and an object come with the text they print
as. -/
inductive Json where
  | null
  | string (s : List UInt8)
  | other (printed : CStr)
  | object (members : List (CStr × Json)) (printed : CStr)

/-- The members of an object. -/
abbrev Members := List (CStr × Json)

/-- How reading a key file ends early: it returns `NULL`, or it reads or writes memory it must
not. -/
inductive Stop where
  | null
  | fault
  deriving DecidableEq

/-- `json_object_get_string`; `none` is `NULL`. -/
def Json.getString : Json → Option (List UInt8)
  | .null => none
  | .string s => some s
  | .other printed => some printed.bytes
  | .object _ printed => some printed.bytes

/-- `json_object_get_string_len`. -/
def Json.getStringLen : Json → ℕ
  | .string s => s.length
  | _ => 0

/-- What `json_object_object_foreach` goes through; a value that is no object has no table of
members to go through. -/
def Json.foreach : Json → Except Stop Members
  | .object members _ => .ok members
  | _ => .error .fault

/-- The C string of a value, for a function that takes no `NULL`. -/
def Json.cstr (val : Json) : Except Stop CStr :=
  match val.getString with
  | some s => .ok (CStr.ofBytes s)
  | none => .error .fault

/-! ## Numbers -/

/-- `isspace`. -/
def isspace (c : UInt8) : Bool := c == 32 || (9 ≤ c && c ≤ 13)

/-- `isdigit`. -/
def isdigit (c : UInt8) : Bool := 48 ≤ c && c ≤ 57

/-- The sign and the digits that `strtoull` takes. -/
def strtoullSubject (s : CStr) : Bool × List UInt8 :=
  match s.bytes.dropWhile isspace with
  | 45 :: l => (true, l.takeWhile isdigit)
  | 43 :: l => (false, l.takeWhile isdigit)
  | l => (false, l.takeWhile isdigit)

/-- `strtoull(s, NULL, 10)`: 0 when there is no number, `ULLONG_MAX` when it is too large. -/
def strtoull (s : CStr) : UInt64 :=
  let (negative, digits) := strtoullSubject s
  let n := digits.foldl (fun n c => 10 * n + (c.toNat - 48)) 0
  if 2 ^ 64 ≤ n then UInt64.ofNat (2 ^ 64 - 1)
  else if negative then 0 - UInt64.ofNat n else UInt64.ofNat n

/-! ## The key sets -/

/-- The memory of a key: 32 bytes and one more. -/
abbrev KeyBuffer := Vector UInt8 33

/-- What a build of the program and its memory decide: the bytes behind `decoding` and behind a key,
what the local buffers hold at first, and `crypto_box_beforenm`, `none` when it fails. -/
structure KeyEnv where
  behind : Behind
  stack : CStr → KeyBuffer
  beforenm : KeyBuffer → KeyBuffer → Option (List UInt8)

/-- `calloc(1, 33)`. -/
def zeroKey : KeyBuffer := Vector.replicate 33 0

/-- `calloc(1, crypto_box_BEFORENMBYTES)`. -/
def zeroBoxk : List UInt8 := List.replicate 32 0

/-- `base64_decode_block` into a key: the bytes decoded and the key. -/
def decodeKey (env : KeyEnv) (code : List UInt8) (out : KeyBuffer) :
    Except Stop (ℕ × KeyBuffer) :=
  match base64DecodeBlock env.behind code out base64InitDecodestate with
  | some (n, out, _) => .ok (n, out)
  | none => .error .fault

/-- Decoding the value of a field into a key; `NULL` is returned for one that is not of 32 bytes. -/
def checkedKey (env : KeyEnv) (val : Json) (out : KeyBuffer) : Except Stop KeyBuffer := do
  let r ← decodeKey env ((val.getString.getD []).take val.getStringLen) out
  if r.1 ≠ 32 then throw .null
  return r.2

/-- `crypto_box_beforenm` of two keys, either of which may be `NULL`. -/
def cryptoBoxBeforenm (env : KeyEnv) (pk sk : Option KeyBuffer) :
    Except Stop (Option (List UInt8)) :=
  match pk, sk with
  | some pk, some sk => .ok (env.beforenm pk sk)
  | _, _ => .error .fault

/-- `crypto_box_beforenm` into new memory, whatever it returns. -/
def sharedKey (env : KeyEnv) (pk sk : Option KeyBuffer) : Except Stop (List UInt8) := do
  return (← cryptoBoxBeforenm env pk sk).getD zeroBoxk

/-! ## `read_ddbrokerkeys` -/

/-- `ddtenant_t`, as it is read. -/
structure ReadTenant where
  name : Option CStr
  cookie : UInt64
  boxk : Option (List UInt8)

/-- `ddbrokerkeys_t`, as it is read. -/
structure ReadBrokerKeys where
  privkey : Option KeyBuffer
  pubkey : Option KeyBuffer
  ddboxk : Option (List UInt8)
  hash : Option CStr
  cookie : UInt64
  tenants : List CStr
  tenantkeys : List (CStr × ReadTenant)

/-- A field of `dd`. -/
def readDdField (env : KeyEnv) (ddkeys : ReadBrokerKeys) (field : CStr × Json) :
    Except Stop ReadBrokerKeys :=
  if field.1 = text "privkey" then do
    let privkey ← checkedKey env field.2 zeroKey
    return { ddkeys with privkey := some privkey }
  else if field.1 = text "pubkey" then do
    let hash ← field.2.cstr
    let pubkey ← checkedKey env field.2 zeroKey
    return { ddkeys with hash := some hash, pubkey := some pubkey }
  else if field.1 = text "R" then do
    let R ← field.2.cstr
    return { ddkeys with cookie := strtoull R }
  else return ddkeys

/-- A member, in the pass that finds `dd`. -/
def readDdMember (env : KeyEnv) (ddkeys : ReadBrokerKeys) (member : CStr × Json) :
    Except Stop ReadBrokerKeys :=
  if member.1 = text "dd" then do
    let fields ← member.2.foreach
    fields.foldlM (readDdField env) ddkeys
  else return ddkeys

/-- A field of a tenant of the member `hash`. -/
def readTenantField (env : KeyEnv) (hash : CStr) (privkey : Option KeyBuffer) (ten : ReadTenant)
    (field : CStr × Json) : Except Stop ReadTenant :=
  if field.1 = text "pubkey" then do
    let pubkey ← checkedKey env field.2 (env.stack hash)
    match ← cryptoBoxBeforenm env (some pubkey) privkey with
    | some boxk => return { ten with boxk := some boxk }
    | none => throw .null
  else if field.1 = text "r" then do
    let name ← field.2.cstr
    return { ten with name := some name }
  else if field.1 = text "R" then do
    let R ← field.2.cstr
    return { ten with cookie := strtoull R }
  else return ten

/-- `zhash_insert`: a name that is there is not inserted again. -/
def zhashInsert {α : Type} (hash : List (CStr × α)) (key : CStr) (item : α) : List (CStr × α) :=
  if (hash.lookup key).isSome then hash else hash ++ [(key, item)]

/-- A member, in the pass that finds the tenants.  `zlist_append` takes no `NULL`. -/
def readTenantMember (env : KeyEnv) (ddkeys : ReadBrokerKeys) (member : CStr × Json) :
    Except Stop ReadBrokerKeys :=
  if member.1 ≠ text "dd" then do
    let fields ← member.2.foreach
    let ten ← fields.foldlM (readTenantField env member.1 ddkeys.privkey) ⟨none, 0, none⟩
    return { ddkeys with
      tenants := ddkeys.tenants ++ ten.name.toList
      tenantkeys := zhashInsert ddkeys.tenantkeys member.1 ten }
  else return ddkeys

/-- `read_ddbrokerkeys`, of the members of the parsed object. -/
def readDdbrokerkeys (env : KeyEnv) (parseResult : Members) : Except Stop ReadBrokerKeys := do
  let ddkeys ← parseResult.foldlM (readDdMember env) ⟨none, none, none, none, 0, [], []⟩
  let ddboxk ← sharedKey env ddkeys.pubkey ddkeys.privkey
  parseResult.foldlM (readTenantMember env) { ddkeys with ddboxk := some ddboxk }

/-! ## `dd_keys_new` -/

/-- `dd_keys_t`, as it is read. -/
structure ReadKeys where
  ispublic : Bool
  privkey : Option KeyBuffer
  pubkey : Option KeyBuffer
  ddpubkey : Option KeyBuffer
  publicpubkey : Option KeyBuffer
  hash : Option CStr
  ddboxk : Option (List UInt8)
  custboxk : Option (List UInt8)
  pubboxk : Option (List UInt8)
  clientkeys : List (CStr × List UInt8)

/-- A field of the client's own keys. -/
def readKeyField (env : KeyEnv) (ddkeys : ReadKeys) (field : CStr × Json) :
    Except Stop ReadKeys :=
  if field.1 = text "publicpubkey" then do
    let publicpubkey ← checkedKey env field.2 zeroKey
    return { ddkeys with publicpubkey := some publicpubkey }
  else if field.1 = text "ddpubkey" then do
    let ddpubkey ← checkedKey env field.2 zeroKey
    return { ddkeys with ddpubkey := some ddpubkey }
  else if field.1 = text "privkey" then do
    let privkey ← checkedKey env field.2 zeroKey
    return { ddkeys with privkey := some privkey }
  else if field.1 = text "pubkey" then do
    let pubkey ← checkedKey env field.2 zeroKey
    return { ddkeys with pubkey := some pubkey }
  else if field.1 = text "hash" then do
    let hash ← field.2.cstr
    return { ddkeys with hash := some hash }
  else return ddkeys

/-- A member of a public key file, in the pass that finds `public`. -/
def readPublicMember (env : KeyEnv) (ddkeys : ReadKeys) (member : CStr × Json) :
    Except Stop ReadKeys :=
  if member.1 = text "public" then do
    let fields ← member.2.foreach
    fields.foldlM (readKeyField env) ddkeys
  else return ddkeys

/-- Where the loop over a customer's fields is: the keys, `customer_name` and `customer_pubkey`. -/
structure CustomerScan where
  ddkeys : ReadKeys
  customerName : Option CStr
  customerPubkey : Option CStr

/-- The values of a field that the scan keeps. -/
def CustomerScan.note (scan : CustomerScan) (field : CStr × Json) : CustomerScan :=
  if field.1 = text "r" then
    { scan with customerName := field.2.getString.map CStr.ofBytes }
  else if field.1 = text "pubkey" then
    { scan with customerPubkey := field.2.getString.map CStr.ofBytes }
  else scan

/-- A field of a customer.  With a name and a key the shared key is inserted; `retval` of the
decoder is not looked at. -/
def readCustomerField (env : KeyEnv) (scan : CustomerScan) (field : CStr × Json) :
    Except Stop CustomerScan :=
  let scan := scan.note field
  match scan.customerName, scan.customerPubkey with
  | some name, some customerPubkey => do
    let r ← decodeKey env customerPubkey.bytes (env.stack name)
    let precalck ← sharedKey env (some r.2) scan.ddkeys.privkey
    return ⟨{ scan.ddkeys with clientkeys := zhashInsert scan.ddkeys.clientkeys name precalck },
      none, none⟩
  | _, _ => return scan

/-- A member of a public key file, in the pass that finds the customers. -/
def readCustomerMember (env : KeyEnv) (ddkeys : ReadKeys) (member : CStr × Json) :
    Except Stop ReadKeys :=
  if member.1 ≠ text "public" then do
    let fields ← member.2.foreach
    let scan ← fields.foldlM (readCustomerField env) ⟨ddkeys, none, none⟩
    return scan.ddkeys
  else return ddkeys

/-- `dd_keys_new`, of the members of the parsed object. -/
def ddKeysRead (env : KeyEnv) (parseResult : Members) : Except Stop ReadKeys := do
  let ispublic := parseResult.any fun member => member.1 = text "public"
  let ddkeys : ReadKeys := ⟨ispublic, none, none, none, none, none, none, none, none, []⟩
  let ddkeys ← if ispublic then do
      let ddkeys ← parseResult.foldlM (readPublicMember env) ddkeys
      parseResult.foldlM (readCustomerMember env) ddkeys
    else parseResult.foldlM (readKeyField env) ddkeys
  let ddboxk ← sharedKey env ddkeys.ddpubkey ddkeys.privkey
  let custboxk ← sharedKey env ddkeys.pubkey ddkeys.privkey
  let pubboxk ← sharedKey env ddkeys.publicpubkey ddkeys.privkey
  return { ddkeys with ddboxk := some ddboxk, custboxk := some custboxk, pubboxk := some pubboxk }

end DoubleDecker
