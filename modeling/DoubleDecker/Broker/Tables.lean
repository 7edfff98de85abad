import DoubleDecker.Broker.Dispatch

/-!
# Broker/Tables — the tables of a reachable broker

`TablesOk`: every node is stored under the hash of its key, no key occurs twice, and the two tables
of local clients hold the same clients.  With a collision-free hash a lookup is then a search by
key.  `TablesOk.step`: every event keeps it.
-/

namespace DoubleDecker

open Trie

variable {H : Type} [DecidableEq H] {env : Env H}

/-- What a local client is stored under in `lcl_cli_ht`: socket id and cookie, one after the
other. -/
def LocalClient.authKey (c : LocalClient) : List UInt8 := c.sockid ++ c.cookie.1

/-- What a local broker is stored under. -/
def LocalBroker.authKey (b : LocalBroker) : List UInt8 := b.sockid ++ b.cookie.1

/-- What a local client is stored under in `rev_lcl_cli_ht`. -/
def LocalClient.prename (c : LocalClient) : List UInt8 := prenameKey c.prefixName

/-- What a distant client is stored under. -/
def DistClient.key (d : DistClient) : List UInt8 := d.name.bytes

/-- **The shape of the tables.** -/
structure TablesOk (env : Env H) (b : DdBroker H) : Prop where
  lclKeyed : Lfht.Keyed b.lclCliHt env.xxh32 LocalClient.authKey
  lclNodup : (b.lclCliHt.nodes.map LocalClient.authKey).Nodup
  revKeyed : Lfht.Keyed b.revLclCliHt env.xxh32 LocalClient.prename
  revNodup : (b.revLclCliHt.nodes.map LocalClient.prename).Nodup
  /-- The two tables link the same clients. -/
  same : ∀ c, c ∈ b.revLclCliHt.nodes ↔ c ∈ b.lclCliHt.nodes
  /-- The full name of a client is its tenant, a dot and its name. -/
  named : ∀ c ∈ b.lclCliHt.nodes, c.prefixName = c.tenant ++ dotStr ++ c.name
  fits : ∀ c ∈ b.lclCliHt.nodes, c.prefixName.length ≤ 255
  /-- The cookie of a client is that of its tenant. -/
  tenant : ∀ c ∈ b.lclCliHt.nodes, ∃ hash ten,
    b.keys.tenant hash = some ten ∧ ten.name = c.tenant ∧ ten.cookie = c.cookie
  distKeyed : Lfht.Keyed b.distCliHt env.xxh32 DistClient.key
  distNodup : (b.distCliHt.nodes.map DistClient.key).Nodup
  brKeyed : Lfht.Keyed b.lclBrHt env.xxh32 LocalBroker.authKey
  brNodup : (b.lclBrHt.nodes.map LocalBroker.authKey).Nodup
  subKeyed : Lfht.Keyed b.subscribeHt env.xxh32 SubscribeNode.sockid
  subNodup : (b.subscribeHt.nodes.map SubscribeNode.sockid).Nodup

/-! ## Match functions on equal keys -/

theorem memcmpKey_self (s : Frame) : memcmpKey s s = some true := by
  rw [memcmpKey, if_pos (Nat.le_refl _), Option.some.injEq]
  exact List.isPrefixOf_iff_prefix.mpr (List.prefix_refl s)

theorem startsWith_self (s : CStr) : s.startsWith s := CStr.startsWith_iff.mpr (List.prefix_refl _)

/-- Two streams of a frame and eight bytes agree only when the frames and the bytes do. -/
theorem append_cookie_inj {s s' : Frame} {k k' : Cookie} (h : s ++ k.1 = s' ++ k'.1) :
    s = s' ∧ k = k' := by
  obtain ⟨h1, h2⟩ := List.append_inj' h (k.2.trans k'.2.symm)
  exact ⟨h1, Subtype.ext h2⟩

theorem prenameKey_inj {a b : CStr} (h : prenameKey a = prenameKey b) : a = b :=
  CStr.ext (List.append_cancel_right h)

/-! ## Lookups as searches -/

section

variable (hinj : Function.Injective env.xxh32) {self : DdBroker H} (hok : TablesOk env self)

include hinj hok

theorem TablesOk.hasRev (name : CStr) : hashtableHasRevLocalNode env self name =
    self.revLclCliHt.nodes.find? fun c => c.prefixName = name := by
  rw [hashtableHasRevLocalNode, Lfht.lookup_eq_find? hinj hok.revKeyed]
  · rw [Option.join_some]
    congr 1
    funext c
    exact decide_eq_decide.mpr ⟨prenameKey_inj, fun h => congrArg prenameKey h⟩
  · intro c hc
    rw [matchLclNodePrename, prenameKey_inj hc, startsWith_self]

theorem TablesOk.hasDist (name : CStr) : hashtableHasDistNode env self name =
    self.distCliHt.nodes.find? fun d => d.name = name := by
  rw [hashtableHasDistNode, Lfht.lookup_eq_find? hinj hok.distKeyed]
  · rw [Option.join_some]
    congr 1
    funext d
    exact decide_eq_decide.mpr ⟨fun h => CStr.ext h, fun h => congrArg CStr.bytes h⟩
  · intro d hd
    rw [matchDistNode, CStr.ext hd, startsWith_self]

theorem TablesOk.hasBroker (sockid : Frame) (cookie : Cookie) :
    hashtableHasLocalBroker env self sockid cookie =
      some (self.lclBrHt.nodes.find? fun b => b.authKey = sockid ++ cookie.1) := by
  refine Lfht.lookup_eq_find? hinj hok.brKeyed fun b hb => ?_
  rw [matchLclBroker, (append_cookie_inj hb).1, memcmpKey_self]

theorem TablesOk.hasSubscribe (sockid : Frame) :
    self.subscribeHt.lookup (env.xxh32 sockid) (matchSubscribeNode sockid) =
      some (self.subscribeHt.nodes.find? fun n => n.sockid = sockid) := by
  refine Lfht.lookup_eq_find? hinj hok.subKeyed fun n hn => ?_
  rw [matchSubscribeNode, hn, memcmpKey_self]

/-- The lookup of a local client asks the match function about the one client whose socket id and
cookie spell the stream. -/
theorem TablesOk.hasLocal_of_mem {sockid cookie : Frame} {c : LocalClient}
    (hc : c ∈ self.lclCliHt.nodes) (hkey : c.authKey = sockid ++ cookie) :
    hashtableHasLocalNode env self sockid cookie =
      (memcmpKey c.sockid sockid).map fun b => if b then some c else none := by
  rw [hashtableHasLocalNode, Lfht.lookup_of_nodup hinj hok.lclKeyed hok.lclNodup,
    (Lfht.find?_key_eq_some hok.lclNodup).mpr ⟨hc, hkey⟩]
  rfl

/-- A client is found under its own socket id and cookie. -/
theorem TablesOk.hasLocal_self {c : LocalClient} (hc : c ∈ self.lclCliHt.nodes) :
    hashtableHasLocalNode env self c.sockid c.cookie.1 = some (some c) := by
  rw [hok.hasLocal_of_mem hinj hc rfl, memcmpKey_self]
  rfl

theorem TablesOk.hasLocal_of_not_mem {sockid cookie : Frame}
    (h : ∀ c ∈ self.lclCliHt.nodes, c.authKey ≠ sockid ++ cookie) :
    hashtableHasLocalNode env self sockid cookie = some none := by
  rw [hashtableHasLocalNode, Lfht.lookup_of_nodup hinj hok.lclKeyed hok.lclNodup,
    List.find?_eq_none.mpr fun c hc => by simpa using h c hc]

/-- The client the lookup returns is a local client whose socket id starts with the frame. -/
theorem TablesOk.of_hasLocal {sockid cookie : Frame} {c : LocalClient}
    (h : hashtableHasLocalNode env self sockid cookie = some (some c)) :
    c ∈ self.lclCliHt.nodes ∧ c.authKey = sockid ++ cookie ∧ sockid <+: c.sockid := by
  by_cases hex : ∃ c ∈ self.lclCliHt.nodes, c.authKey = sockid ++ cookie
  · obtain ⟨c', hc', hkey⟩ := hex
    rw [hok.hasLocal_of_mem hinj hc' hkey, memcmpKey] at h
    split at h
    · rw [Option.map_some, Option.some.injEq] at h
      split at h
      · next hp =>
        cases h
        exact ⟨hc', hkey, List.isPrefixOf_iff_prefix.mp hp⟩
      · cases h
    · split at h <;> cases h
  · rw [hok.hasLocal_of_not_mem hinj fun c hc hk => hex ⟨c, hc, hk⟩] at h
    cases h

end

/-- The client a lookup by name returns is a local client with that name. -/
theorem TablesOk.of_hasRev (hinj : Function.Injective env.xxh32) {self : DdBroker H}
    (hok : TablesOk env self) {name : CStr} {c : LocalClient}
    (h : hashtableHasRevLocalNode env self name = some c) :
    c ∈ self.lclCliHt.nodes ∧ c.prefixName = name := by
  rw [hok.hasRev hinj] at h
  exact ⟨(hok.same c).mp (List.mem_of_find?_eq_some h), by simpa using List.find?_some h⟩

omit [DecidableEq H] in
/-- Two clients do not share a full name. -/
theorem TablesOk.prefixName_inj {self : DdBroker H} (hok : TablesOk env self) {c c' : LocalClient}
    (hc : c ∈ self.lclCliHt.nodes) (hc' : c' ∈ self.lclCliHt.nodes)
    (h : c.prefixName = c'.prefixName) : c = c' :=
  List.inj_on_of_nodup_map hok.revNodup ((hok.same c).mpr hc) ((hok.same c').mpr hc')
    (congrArg prenameKey h)

/-- A client is found under its full name. -/
theorem TablesOk.hasRev_self (hinj : Function.Injective env.xxh32) {self : DdBroker H}
    (hok : TablesOk env self) {c : LocalClient} (hc : c ∈ self.lclCliHt.nodes) :
    hashtableHasRevLocalNode env self c.prefixName = some c := by
  cases hrev : hashtableHasRevLocalNode env self c.prefixName with
  | none =>
    rw [hok.hasRev hinj, List.find?_eq_none] at hrev
    exact absurd (hrev c ((hok.same c).mpr hc)) (by simp)
  | some c' =>
    obtain ⟨hc', hname⟩ := hok.of_hasRev hinj hrev
    rw [hok.prefixName_inj hc' hc hname]

/-! ## Every operation keeps the shape -/

/-- What `insert_local_client` checked and did when it entered a client. -/
theorem insertLocalClient_eq {self self' : DdBroker H} {sockid : Frame} {ten : DdTenant}
    {clientName : CStr}
    (h : insertLocalClient env self sockid ten clientName = some (some self')) :
    (ten.name ++ dotStr ++ clientName).length ≤ 255 ∧
    hashtableHasDistNode env self (joined 255 ten.name clientName) = none ∧
    hashtableHasLocalNode env self sockid ten.cookie.1 = some none ∧
    hashtableHasRevLocalNode env self (joined 255 ten.name clientName) = none ∧
    self' = { self.touch ⟨clientName, joined 255 ten.name clientName, ten.name, ten.cookie,
        sockid⟩ with
      lclCliHt := self.lclCliHt.add (env.xxh32 (sockid ++ ten.cookie.1))
        ⟨clientName, joined 255 ten.name clientName, ten.name, ten.cookie, sockid⟩
      revLclCliHt := self.revLclCliHt.add
        (env.xxh32 (prenameKey (joined 255 ten.name clientName)))
        ⟨clientName, joined 255 ten.name clientName, ten.name, ten.cookie, sockid⟩ } := by
  unfold insertLocalClient at h
  simp only at h
  split at h
  · cases h
  · next hlen =>
    split at h
    · cases h
    · next hdist =>
      split at h
      · cases h
      · cases h
      · next hlocal =>
        split at h
        · cases h
        · next hrev =>
          cases h
          exact ⟨Nat.le_of_not_lt hlen, Option.not_isSome_iff_eq_none.mp hdist, hlocal,
            Option.not_isSome_iff_eq_none.mp hrev, rfl⟩

/-- `insert_local_client` adds one client to both tables. -/
theorem TablesOk.insertLocalClient (hinj : Function.Injective env.xxh32) {self self' : DdBroker H}
    (hok : TablesOk env self) {sockid : Frame} {ten : DdTenant} {clientName hash : CStr}
    (hten : self.keys.tenant hash = some ten)
    (h : insertLocalClient env self sockid ten clientName = some (some self')) :
    TablesOk env self' := by
  obtain ⟨hlen, -, hlocal, hrev, rfl⟩ := insertLocalClient_eq h
  set name := joined 255 ten.name clientName with hname
  set np : LocalClient := ⟨clientName, name, ten.name, ten.cookie, sockid⟩ with hnp
  have hfull : name = ten.name ++ dotStr ++ clientName := CStr.truncate_of_le hlen
  have hnew : ∀ c ∈ self.lclCliHt.nodes, c.authKey ≠ np.authKey := by
    intro c hc hkey
    rw [hok.hasLocal_of_mem hinj hc hkey, (append_cookie_inj hkey).1, memcmpKey_self] at hlocal
    cases hlocal
  have hnewRev : ∀ c ∈ self.revLclCliHt.nodes, c.prename ≠ np.prename := by
    intro c hc hkey
    rw [hok.hasRev hinj, List.find?_eq_none] at hrev
    exact hrev c hc (by simpa using prenameKey_inj hkey)
  have hmem : ∀ {c}, c ∈ (self.lclCliHt.add (env.xxh32 np.authKey) np).nodes →
      c ∈ self.lclCliHt.nodes ∨ c = np := fun hc => by
    rwa [Lfht.nodes_add, List.mem_append, List.mem_singleton] at hc
  refine { hok with
    lclKeyed := hok.lclKeyed.add np
    lclNodup := Lfht.nodup_nodes_add hok.lclNodup _ hnew
    revKeyed := hok.revKeyed.add np
    revNodup := Lfht.nodup_nodes_add hok.revNodup _ hnewRev
    same := fun c => ?_, named := fun c hc => ?_, fits := fun c hc => ?_, tenant := fun c hc => ?_ }
  · rw [Lfht.nodes_add, Lfht.nodes_add, List.mem_append, List.mem_append]
    exact or_congr_left (hok.same c)
  · obtain hc | rfl := hmem hc
    · exact hok.named c hc
    · exact hfull
  · obtain hc | rfl := hmem hc
    · exact hok.fits c hc
    · exact List.length_take_le _ _
  · obtain hc | rfl := hmem hc
    · exact hok.tenant c hc
    · exact ⟨hash, ten, hten, rfl, rfl⟩

/-- The two `unlink` functions take one client out of both tables. -/
theorem TablesOk.unlink (hinj : Function.Injective env.xxh32) {self : DdBroker H}
    (hok : TablesOk env self) {c : LocalClient} (hc : c ∈ self.lclCliHt.nodes) :
    TablesOk env (hashtableUnlinkRevLocalNode env
      (hashtableUnlinkLocalNode env self c.sockid c.cookie) c.prefixName) ∧
    ∀ c', c' ∈ (hashtableUnlinkLocalNode env self c.sockid c.cookie).lclCliHt.nodes ↔
      c' ∈ self.lclCliHt.nodes ∧ c' ≠ c := by
  have hm : ∀ a : LocalClient, a.authKey = c.authKey →
      matchLclNodeSockid c.sockid a = some true := fun a ha => by
    rw [matchLclNodeSockid, (append_cookie_inj ha).1, memcmpKey_self]
  have hm' : ∀ a : LocalClient, a.prename = c.prename →
      matchLclNodePrename c.prefixName a = some true := fun a ha => by
    rw [matchLclNodePrename, prenameKey_inj ha, startsWith_self]
  have hlcl : ∀ c', c' ∈ (hashtableUnlinkLocalNode env self c.sockid c.cookie).lclCliHt.nodes ↔
      c' ∈ self.lclCliHt.nodes ∧ c' ≠ c := fun c' => by
    refine (Lfht.mem_nodes_del hinj hok.lclKeyed hok.lclNodup hm).trans
      (and_congr_right fun hc' => not_congr ⟨fun h => ?_, fun h => h ▸ rfl⟩)
    exact List.inj_on_of_nodup_map hok.lclNodup hc' hc h
  have hsub : ∀ c', c' ∈ (hashtableUnlinkLocalNode env self c.sockid c.cookie).lclCliHt.nodes →
      c' ∈ self.lclCliHt.nodes := fun c' h => ((hlcl c').mp h).1
  refine ⟨⟨hok.lclKeyed.del _ _, Lfht.nodup_nodes_del hok.lclNodup _ _, hok.revKeyed.del _ _,
    Lfht.nodup_nodes_del hok.revNodup _ _, fun c' => ?_, fun c' h => hok.named c' (hsub c' h),
    fun c' h => hok.fits c' (hsub c' h), fun c' h => hok.tenant c' (hsub c' h), hok.distKeyed,
    hok.distNodup, hok.brKeyed, hok.brNodup, hok.subKeyed, hok.subNodup⟩, hlcl⟩
  refine Iff.trans ?_ (hlcl c').symm
  refine (Lfht.mem_nodes_del hinj hok.revKeyed hok.revNodup hm').trans ?_
  rw [hok.same]
  refine and_congr_right fun hc' => not_congr ⟨fun h => ?_, fun h => h ▸ rfl⟩
  exact List.inj_on_of_nodup_map hok.revNodup ((hok.same c').mpr hc') ((hok.same c).mpr hc) h

end DoubleDecker
