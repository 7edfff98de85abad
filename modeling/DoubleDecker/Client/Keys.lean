import DoubleDecker.Broker.Isolation
import DoubleDecker.Client.Handlers

/-!
# Client/Keys — the key files of the tenants

What `dd_keys_new` makes of a key file, and the files of a set of tenants that belong together
(`KeySet`).  Both ends of a message choose their key by reading a tenant off a string: the sender
off the target or topic, the receiver off the source (`KeySet.peer`).
-/

namespace DoubleDecker

variable {H : Type}

/-- The members of a key file that `dd_keys_new` reads: whether there is one named `public`, its
keys, and the other members with a name `r` and a `pubkey`. -/
structure KeyFile where
  ispublic : Bool
  publicpubkey : Frame
  ddpubkey : Frame
  privkey : Frame
  pubkey : Frame
  hash : CStr
  customers : List (CStr × Frame)

/-- `dd_keys_new`, with `crypto_box_beforenm` as it is given. -/
def ddKeysNew (beforenm : Frame → Frame → Frame) (file : KeyFile) : DdKeys where
  ispublic := file.ispublic
  hash := file.hash
  ddboxk := beforenm file.ddpubkey file.privkey
  custboxk := beforenm file.pubkey file.privkey
  pubboxk := beforenm file.publicpubkey file.privkey
  clientkeys := if file.ispublic then
    file.customers.map fun customer => (customer.1, beforenm customer.2 file.privkey) else []

/-- **The key pairs behind consistent key files** — one for each tenant, `public` among them, with
plain names. -/
structure KeySet where
  tenants : List CStr
  publicKey : CStr → Frame
  secretKey : CStr → Frame
  ddPublicKey : Frame
  hash : CStr → CStr
  mem_public : publicName ∈ tenants
  dot_free : ∀ t ∈ tenants, dot ∉ t.bytes
  fits : ∀ t ∈ tenants, t.length < 255

namespace KeySet

variable (K : KeySet) (beforenm : Frame → Frame → Frame)

/-- The key file of a tenant; that of `public` has the public keys of all others. -/
def keyFile (tenant : CStr) : KeyFile where
  ispublic := decide (tenant = publicName)
  publicpubkey := K.publicKey publicName
  ddpubkey := K.ddPublicKey
  privkey := K.secretKey tenant
  pubkey := K.publicKey tenant
  hash := K.hash tenant
  customers := (K.tenants.filter (· ≠ publicName)).map fun t => (t, K.publicKey t)

/-- The keys of a tenant's clients. -/
def ddKeys (tenant : CStr) : DdKeys := ddKeysNew beforenm (K.keyFile tenant)

/-- The shared key of two tenants, as the second one computes it. -/
def shared (theirs ours : CStr) : Frame := beforenm (K.publicKey theirs) (K.secretKey ours)

/-- `crypto_box_beforenm` is symmetric. -/
def Symmetric : Prop :=
  ∀ a ∈ K.tenants, ∀ b ∈ K.tenants, K.shared beforenm a b = K.shared beforenm b a

/-- Different pairs of tenants have different shared keys. -/
def Distinct : Prop :=
  ∀ a ∈ K.tenants, ∀ b ∈ K.tenants, ∀ c ∈ K.tenants, ∀ d ∈ K.tenants,
    K.shared beforenm a b = K.shared beforenm c d → a = c ∧ b = d ∨ a = d ∧ b = c

/-- The broker's key file has the same tenants. -/
structure Matches (k : DdBrokerKeys) : Prop where
  listed : ∀ t, t ∈ k.tenants ↔ t ∈ K.tenants
  named : ∀ hash ten, k.tenant hash = some ten → ten.name ∈ K.tenants

/-- **The tenant a client reads off a string**: `public`, for a public client the tenant named
before the first dot, else its own. -/
def peer (tenant name : CStr) : CStr :=
  if name.startsWith publicDot then publicName
  else if tenant = publicName ∧ dot ∈ name.bytes ∧ name.before dot ∈ K.tenants then name.before dot
  else tenant

/-- **A bare name that looks foreign** — to a public client one that starts with another tenant and
a dot, to any other one that starts with `public.`. -/
def foreign (tenant name : CStr) : Bool :=
  if tenant = publicName then
    decide (dot ∈ name.bytes) && decide (name.before dot ∈ K.tenants) &&
      decide (name.before dot ≠ publicName)
  else name.startsWith publicDot

variable {K beforenm}

theorem Matches.plain {k : DdBrokerKeys} (h : K.Matches k) : k.Plain where
  dot_free hash ten hten := K.dot_free _ (h.named hash ten hten)
  fits hash ten hten := K.fits _ (h.named hash ten hten)

/-! ## The tables of a client -/

@[simp] theorem custboxk_ddKeys (t : CStr) :
    (K.ddKeys beforenm t).custboxk = K.shared beforenm t t := rfl

@[simp] theorem pubboxk_ddKeys (t : CStr) :
    (K.ddKeys beforenm t).pubboxk = K.shared beforenm publicName t := rfl

@[simp] theorem ispublic_ddKeys (t : CStr) :
    (K.ddKeys beforenm t).ispublic = decide (t = publicName) := rfl

/-- A table filled by a function, one entry for each name, is searched by name. -/
theorem lookup_map_self {α β : Type} [DecidableEq α] (f : α → β) (l : List α) (a : α) :
    (l.map fun x => (x, f x)).lookup a = if a ∈ l then some (f a) else none := by
  induction l with
  | nil => rfl
  | cons x l ih =>
    rw [List.map_cons, List.lookup_cons]
    by_cases h : a = x
    · subst h
      simp
    · rw [beq_eq_false_iff_ne.mpr h]
      simpa [h] using ih

/-- **The table of a public client** has all tenants but its own; that of another client is
empty. -/
theorem lookup_clientkeys (t u : CStr) : (K.ddKeys beforenm t).clientkeys.lookup u =
    if t = publicName ∧ u ∈ K.tenants ∧ u ≠ publicName then some (K.shared beforenm u t)
    else none := by
  unfold ddKeys ddKeysNew keyFile
  by_cases ht : t = publicName
  · subst ht
    simp only [decide_true, if_true, List.map_map, true_and]
    refine (lookup_map_self (fun u => K.shared beforenm u publicName) _ u).trans ?_
    simp only [List.mem_filter, ne_eq, decide_not, Bool.not_eq_true', decide_eq_false_iff_not]
  · simp [ht]

/-- The part before the first dot is `public` just when the name starts with `public.`. -/
theorem before_eq_publicName {name : CStr} (h : dot ∈ name.bytes) :
    name.before dot = publicName ↔ name.startsWith publicDot := by
  constructor
  · intro hb
    obtain ⟨r, hr⟩ : ∃ r, name.after dot = some r := ⟨_, if_pos h⟩
    have hbytes := CStr.exists_of_after hr
    rw [hb] at hbytes
    rw [CStr.startsWith_iff, hbytes]
    exact ⟨r.bytes, rfl⟩
  · intro hs
    exact @Owned.before publicName _ (CStr.startsWith_iff.mp hs) (by decide)

/-! ## Which key is chosen -/

/-- The lookup a client makes for a name with a dot. -/
theorem lookup_before {t name : CStr} (hdot : dot ∈ name.bytes) :
    (K.ddKeys beforenm t).clientkeys.lookup (name.before dot) =
      if t = publicName ∧ name.before dot ∈ K.tenants ∧ ¬ name.startsWith publicDot then
        some (K.shared beforenm (name.before dot) t) else none := by
  rw [lookup_clientkeys]
  simp only [ne_eq, before_eq_publicName hdot]

/-- **`dd_notify` encrypts for the tenant it reads off the target.** -/
theorem notifyKey_ddKeys (t target : CStr) :
    notifyKey (K.ddKeys beforenm t) target = K.shared beforenm (K.peer t target) t := by
  unfold notifyKey peer
  simp only [ispublic_ddKeys, decide_eq_true_eq]
  by_cases hs : target.startsWith publicDot
  · rw [if_pos hs]
    split <;> simp [hs]
  · rw [if_neg hs]
    by_cases hread : dot ∈ target.bytes ∧ t = publicName
    · rw [if_pos hread, lookup_before hread.1]
      by_cases hmem : target.before dot ∈ K.tenants
      · simp [hs, hread, hmem]
      · simp [hs, hread, hmem]
    · have hno : ¬ (t = publicName ∧ dot ∈ target.bytes ∧ target.before dot ∈ K.tenants) :=
        fun h => hread ⟨h.2.1, h.1⟩
      rw [if_neg hread, if_neg hno]
      simp [hs]

/-- **`dd_publish` encrypts for the public tenant or its own.** -/
theorem publishKey_ddKeys {t topic : CStr} {key : Frame}
    (h : publishKey (K.ddKeys beforenm t) topic = some key) :
    key = K.shared beforenm (if topic.startsWith publicDot then publicName else t) t := by
  unfold publishKey at h
  simp only at h
  split at h
  · cases h
  · rw [← Option.some.inj h]
    split <;> rfl

/-- **The receiver decrypts for the tenant it reads off the source.** -/
theorem sourceKey_ddKeys (t source : CStr) :
    sourceKey (K.ddKeys beforenm t) source = K.shared beforenm (K.peer t source) t := by
  unfold sourceKey peer
  by_cases hdot : dot ∈ source.bytes
  · rw [if_pos hdot, lookup_before hdot]
    by_cases hs : source.startsWith publicDot
    · simp [hs]
    · by_cases hmem : t = publicName ∧ source.before dot ∈ K.tenants
      · simp [hs, hmem, hdot]
      · have hno : ¬ (t = publicName ∧ dot ∈ source.bytes ∧ source.before dot ∈ K.tenants) :=
          fun h => hmem ⟨h.1, h.2.2⟩
        rw [if_neg fun h => hmem ⟨h.1, h.2.1⟩, if_neg hs, if_neg hno]
        simp [hs]
  · rw [if_neg hdot]
    split
    · next h => cases h
    · simp only [hdot, false_and, and_false, if_false]
      split <;> rfl

/-! ## What is read off a source -/

/-- A full name names its tenant, to a public client and for a public sender. -/
theorem peer_full {t u name : CStr} (hu : u ∈ K.tenants) (h : t = publicName ∨ u = publicName)
    (hown : Owned u name) : K.peer t name = u := by
  have hdot := K.dot_free u hu
  unfold peer
  by_cases hpub : u = publicName
  · subst hpub
    have hs : publicDot.bytes <+: name.bytes := hown
    rw [if_pos (CStr.startsWith_iff.mpr hs)]
  · have hs : ¬ name.startsWith publicDot := fun hs =>
      hpub (((hown.before hdot).symm.trans
        (@Owned.before publicName _ (CStr.startsWith_iff.mp hs) (by decide))))
    have hmem : dot ∈ name.bytes := hown.subset (by simp)
    rw [if_neg hs, hown.before hdot, if_pos ⟨h.resolve_right hpub, hmem, hu⟩]

/-- **A bare name is read as the receiver's own tenant's just when it does not look foreign.** -/
theorem peer_bare_iff (t name : CStr) : K.peer t name = t ↔ ¬ K.foreign t name := by
  unfold peer foreign
  by_cases hs : name.startsWith publicDot
  · have hdot : dot ∈ name.bytes := (CStr.startsWith_iff.mp hs).subset (by decide)
    rw [if_pos hs]
    by_cases ht : t = publicName
    · simp [ht, (before_eq_publicName hdot).mpr hs]
    · simp [ht, hs, eq_comm]
  · rw [if_neg hs]
    by_cases ht : t = publicName
    · by_cases hread : dot ∈ name.bytes ∧ name.before dot ∈ K.tenants
      · have hne : name.before dot ≠ publicName := fun h =>
          hs ((before_eq_publicName hread.1).mp h)
        simp [ht, hread, hne]
      · rw [if_neg fun h => hread h.2]
        simp only [ht, if_true, true_iff, Bool.and_eq_true, decide_eq_true_eq, not_and]
        exact fun h => absurd h hread
    · simp [ht, hs]

/-- **When both ends have the same key** — the receiver reads the sender's tenant off the source. -/
theorem shared_eq_iff (hsym : K.Symmetric beforenm) {s r p : CStr} (hs : s ∈ K.tenants)
    (hr : r ∈ K.tenants) (hp : p ∈ K.tenants) :
    (p = s → K.shared beforenm p r = K.shared beforenm r s) ∧
    (K.Distinct beforenm → K.shared beforenm p r = K.shared beforenm r s → p = s) := by
  refine ⟨fun h => h ▸ hsym p hp r hr, fun hdist heq => ?_⟩
  obtain ⟨rfl, rfl⟩ | ⟨rfl, -⟩ := hdist p hp r hr r hr s hs heq
  · rfl
  · rfl

theorem peer_mem {t : CStr} (ht : t ∈ K.tenants) (name : CStr) : K.peer t name ∈ K.tenants := by
  unfold peer
  split
  · exact K.mem_public
  · split
    · next h => exact h.2.2
    · exact ht

end KeySet

end DoubleDecker
