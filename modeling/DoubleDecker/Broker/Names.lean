import DoubleDecker.Broker.Routing
import DoubleDecker.Library.Mirror

/-!
# Broker/Names — what a step does to a name, and says about it

A broker has a name when it is that of a client of its own, or mapped to a lower broker.  It tells
the higher broker when it gets a name and when it loses one, and it asks for a name it does not have
by a `FORWARD`: what a broker says of a name leads from what it had to what it has (`Reads`).
-/

namespace DoubleDecker

variable {H : Type}

/-! ## Names -/

/-- A client of the broker has the name. -/
def DdBroker.HasClient (b : DdBroker H) (name : CStr) : Prop :=
  ∃ c ∈ b.lclCliHt.nodes, c.prefixName = name

/-- The broker takes the name to be behind the socket id. -/
def DdBroker.Maps (b : DdBroker H) (name : CStr) (s : Frame) : Prop :=
  ∃ dn ∈ b.distCliHt.nodes, dn.name = name ∧ dn.broker = s

section

variable [DecidableEq H] {env : Env H} (hinj : Function.Injective env.xxh32) {b : DdBroker H}
  (hok : TablesOk env b)

include hinj hok

theorem TablesOk.hasRev_eq_none {name : CStr} :
    hashtableHasRevLocalNode env b name = none ↔ ¬ b.HasClient name := by
  rw [hok.hasRev hinj, List.find?_eq_none]
  simp [DdBroker.HasClient, hok.same]

theorem TablesOk.hasDist_eq_some {name : CStr} {dn : DistClient} :
    hashtableHasDistNode env b name = some dn ↔ dn ∈ b.distCliHt.nodes ∧ dn.name = name := by
  rw [hok.hasDist hinj]
  refine ⟨fun h => ⟨List.mem_of_find?_eq_some h, by simpa using List.find?_some h⟩, ?_⟩
  rintro ⟨hmem, rfl⟩
  have hfind : (b.distCliHt.nodes.find? fun d => d.key = dn.key) = some dn :=
    (Lfht.find?_key_eq_some hok.distNodup).mpr ⟨hmem, rfl⟩
  rw [← hfind]
  congr 1
  funext d
  exact decide_eq_decide.mpr ⟨fun h => congrArg CStr.bytes h, fun h => CStr.ext h⟩

theorem TablesOk.maps_iff {name : CStr} {s : Frame} :
    b.Maps name s ↔ ∃ dn, hashtableHasDistNode env b name = some dn ∧ dn.broker = s := by
  simp only [hok.hasDist_eq_some hinj, DdBroker.Maps, and_assoc]

end

/-- The broker has the name. -/
def DdBroker.Has (b : DdBroker H) (name : CStr) : Prop := b.HasClient name ∨ ∃ s, b.Maps name s

instance (b : DdBroker H) (name : CStr) : Decidable (b.HasClient name) :=
  inferInstanceAs (Decidable (∃ c ∈ b.lclCliHt.nodes, c.prefixName = name))

instance (b : DdBroker H) (name : CStr) (s : Frame) : Decidable (b.Maps name s) :=
  inferInstanceAs (Decidable (∃ dn ∈ b.distCliHt.nodes, dn.name = name ∧ dn.broker = s))

instance (b : DdBroker H) (name : CStr) : Decidable (b.Has name) :=
  decidable_of_iff (b.HasClient name ∨ ∃ dn ∈ b.distCliHt.nodes, dn.name = name)
    (or_congr_right ⟨fun ⟨dn, hdn, hname⟩ => ⟨_, dn, hdn, hname, rfl⟩,
      fun ⟨_, dn, hdn, hname, _⟩ => ⟨dn, hdn, hname⟩⟩)

/-- A name is not both that of a client and mapped. -/
def DdBroker.Apart (b : DdBroker H) (name : CStr) : Prop := b.HasClient name → ∀ s, ¬ b.Maps name s

theorem HasClient.congr {b b' : DdBroker H} (h : b'.lclCliHt = b.lclCliHt) (name : CStr) :
    b'.HasClient name ↔ b.HasClient name := by
  rw [DdBroker.HasClient, DdBroker.HasClient, h]

theorem Maps.congr {b b' : DdBroker H} (h : b'.distCliHt = b.distCliHt) (name : CStr) (s : Frame) :
    b'.Maps name s ↔ b.Maps name s := by
  rw [DdBroker.Maps, DdBroker.Maps, h]

/-! ## Notices -/

/-- What a message upwards says about which name. -/
def noticeOf (m : List Frame) : Option (Notice × CStr) :=
  match dealerCmd m with
  | some (.adddcl, _ :: name :: _) => some (.add, CStr.ofBytes name)
  | some (.unregdcli, _ :: name :: _) => some (.del, CStr.ofBytes name)
  | some (.forward, _ :: _ :: dst :: _) => some (.ask, CStr.ofBytes dst)
  | _ => none

/-- What a message upwards says about a name. -/
def noticeFor (name : CStr) (m : List Frame) : Option Notice :=
  (noticeOf m).bind fun p => if p.2 = name then some p.1 else none

/-- What messages say upwards about a name. -/
def notices (name : CStr) (sends : List Send) : List Notice :=
  (sends.filterMap Send.toHigher).filterMap (noticeFor name)

/-- The name a message downwards refuses. -/
def refusalOf (m : List Frame) : Option CStr :=
  match dealerCmd m with
  | some (.error, code :: name :: _) =>
    if readU32 code = some ddErrorRegfail then some (CStr.ofBytes name) else none
  | _ => none

theorem refusalOf_eq_some {m : List Frame} {name : CStr} : refusalOf m = some name ↔
    ∃ code nameFrame rest, dealerCmd m = some (.error, code :: nameFrame :: rest) ∧
      readU32 code = some ddErrorRegfail ∧ name = CStr.ofBytes nameFrame := by
  unfold refusalOf
  constructor
  · intro h
    split at h
    · next code nameFrame rest hcmd =>
      split at h
      · next hcode =>
        cases h
        exact ⟨code, nameFrame, rest, hcmd, hcode, rfl⟩
      · cases h
    · cases h
  · rintro ⟨code, nameFrame, rest, hcmd, hcode, rfl⟩
    rw [hcmd]
    exact if_pos hcode

/-- What a broker that stays registered sends up. -/
inductive UpMessage (keys : DdBrokerKeys) : List Frame → Prop
  | adddcl (name : CStr) (dist : UInt32) :
      UpMessage keys (ddMsg .adddcl [keys.cookie.1, name.bytes, le32 dist])
  | unregdcli (name : CStr) : UpMessage keys (ddMsg .unregdcli [keys.cookie.1, name.bytes])
  | forward (src dst : CStr) (payload : List Frame) :
      UpMessage keys (ddMsg .forward (keys.cookie.1 :: src.bytes :: dst.bytes :: payload))
  | ping : UpMessage keys (ddMsg .ping [keys.cookie.1])

@[simp] theorem noticeFor_adddcl (name name' : CStr) (k : Frame) (rest : List Frame) :
    noticeFor name (ddMsg .adddcl (k :: name'.bytes :: rest)) =
      if name' = name then some .add else none := by
  simp [noticeFor, noticeOf]

@[simp] theorem noticeFor_unregdcli (name name' : CStr) (k : Frame) (rest : List Frame) :
    noticeFor name (ddMsg .unregdcli (k :: name'.bytes :: rest)) =
      if name' = name then some .del else none := by
  simp [noticeFor, noticeOf]

@[simp] theorem noticeFor_forward (name dst : CStr) (k src : Frame) (rest : List Frame) :
    noticeFor name (ddMsg .forward (k :: src :: dst.bytes :: rest)) =
      if dst = name then some .ask else none := by
  simp [noticeFor, noticeOf]

@[simp] theorem noticeFor_ping (name : CStr) (body : List Frame) :
    noticeFor name (ddMsg .ping body) = none := by
  simp [noticeFor, noticeOf]

/-! ## What goes up -/

/-- The messages for the higher broker. -/
def Outcome.ups (o : Outcome H) : List (List Frame) := o.sends.filterMap Send.toHigher

/-- Only answers to sockets and publications. -/
theorem ups_eq_nil {o : Outcome H} (h : ∀ m, Send.dsock m ∉ o.sends) : o.ups = [] := by
  rw [Outcome.ups, List.filterMap_eq_nil_iff]
  intro x hx
  cases x with
  | dsock m => exact absurd hx (h m)
  | rsock | pubN | pubS | subN | subS => rfl

theorem ups_addCliUp {b : DdBroker H} (hreg : b.state = .registered) (name : CStr) (dist : UInt32) :
    (addCliUp b name dist).filterMap Send.toHigher =
      [ddMsg .adddcl [b.keys.cookie.1, name.bytes, le32 dist]] := by
  rw [addCliUp, if_pos hreg]
  rfl

theorem ups_delCliUp {b : DdBroker H} (hreg : b.state = .registered) (name : CStr) :
    (delCliUp b name).filterMap Send.toHigher =
      [ddMsg .unregdcli [b.keys.cookie.1, name.bytes]] := by
  rw [delCliUp, if_pos (by rw [hreg]; decide)]
  rfl

theorem ups_forwardUp {b : DdBroker H} (hreg : b.state = .registered) (src dst : CStr)
    (payload : List Frame) : (forwardUp b src dst payload).filterMap Send.toHigher =
      [ddMsg .forward (b.keys.cookie.1 :: src.bytes :: dst.bytes :: payload)] := by
  rw [forwardUp, if_pos hreg]
  rfl

theorem not_dsock_pubLocally (socks : Option (List Frame)) (name topic : CStr)
    (msg m : List Frame) :
    Send.dsock m ∉ pubLocally socks name topic msg := by
  simp [pubLocally]

theorem Send.Relays.not_dsock {m : List Frame} {pubtopic name : CStr} {payload : List Frame} :
    ¬ (Send.dsock m).Relays pubtopic name payload := by
  rintro ⟨pathv, h | h⟩ <;> cases h

section

variable [DecidableEq H] {env : Env H} {b : DdBroker H} {s cookie : Frame} {msg : List Frame}

theorem ups_ping : (sCbPing env b s cookie).ups = [] := by
  unfold sCbPing
  (repeat' split) <;> rfl

theorem ups_sub : (sCbSub env b s cookie msg).ups = [] := by
  unfold sCbSub tellSubs
  simp only
  (repeat' split) <;> rfl

theorem ups_unsub : (sCbUnsub env b s cookie msg).ups = [] := by
  unfold sCbUnsub tellSubs
  simp only
  (repeat' split) <;> rfl

theorem ups_pub : (sCbPub env b s cookie msg).ups = [] := by
  refine ups_eq_nil fun m hm => ?_
  obtain ⟨_, _, _, _, _, _, -, -, -, -, hrelay | ⟨_, -, hx⟩⟩ := sCbPub_sends hm
  · exact hrelay.not_dsock
  · exact not_dsock_pubLocally _ _ _ _ _ hx

omit [DecidableEq H] in
theorem ups_addlcl : (sCbAddlcl env b s msg).ups = [] := by
  unfold sCbAddlcl
  simp only
  (repeat' split) <;> rfl

omit [DecidableEq H] in
theorem ups_addbr : (sCbAddbr env b s msg).ups = [] := by
  unfold sCbAddbr
  simp only
  (repeat' split) <;> rfl

theorem ups_high_error : (sCbHighError env b msg).ups = [] := by
  unfold sCbHighError
  simp only
  (repeat' split) <;> rfl

omit [DecidableEq H] in
theorem ups_subN : (sOnSubNMsg b msg).ups = [] := by
  refine ups_eq_nil fun m hm => ?_
  obtain ⟨_, _, _, -, hrelay | ⟨_, _, -, hx⟩⟩ := sOnSubNMsg_sends hm
  · exact hrelay.not_dsock
  · exact not_dsock_pubLocally _ _ _ _ _ hx

omit [DecidableEq H] in
theorem ups_subS : (sOnSubSMsg b msg).ups = [] := by
  refine ups_eq_nil fun m hm => ?_
  obtain ⟨_, _, _, -, hrelay | ⟨_, _, -, hx⟩⟩ := sOnSubSMsg_sends hm
  · exact hrelay.not_dsock
  · exact not_dsock_pubLocally _ _ _ _ _ hx

omit [DecidableEq H] in
theorem ups_pubN : (sOnPubNMsg b msg).ups = [] := by
  unfold sOnPubNMsg
  (repeat' split) <;> rfl

omit [DecidableEq H] in
theorem ups_pubS : (sOnPubSMsg b msg).ups = [] := by
  unfold sOnPubSMsg
  (repeat' split) <;> rfl

/-- **Routing asks the higher broker** only for a name it does not have. -/
theorem ups_carry {srcpublic dstpublic : Bool} {src dst : CStr} {payload : List Frame}
    {nodst : Outcome H} (hreg : b.state = .registered) :
    (carry env b srcpublic dstpublic src dst payload nodst).ups = [] ∨
    (hashtableHasRevLocalNode env b dst = none ∧ hashtableHasDistNode env b dst = none ∧
      (carry env b srcpublic dstpublic src dst payload nodst).ups =
        [ddMsg .forward (b.keys.cookie.1 :: src.bytes :: dst.bytes :: payload)]) := by
  unfold carry
  cases hashtableHasRevLocalNode env b dst with
  | some ln =>
    refine Or.inl ?_
    simp only [deliver_eq]
    split <;> rfl
  | none =>
    cases hashtableHasDistNode env b dst with
    | some dn => exact Or.inl rfl
    | none =>
      refine Or.inr ⟨rfl, rfl, ?_⟩
      simp only [hreg, reduceCtorEq, if_false]
      exact ups_forwardUp hreg src dst payload

end

/-! ## Steps that are not about somebody else's name -/

/-- **What a step does to a name of its own** — the mappings stay, and what is said upwards follows
whether the broker has the name. -/
structure OwnStep (b b' : DdBroker H) (sends : List Send) (name : CStr) : Prop where
  maps : ∀ s, b'.Maps name s ↔ b.Maps name s
  tells : b.state = .registered → Reads (b.Has name) (notices name sends) (b'.Has name)
  ups : b.state = .registered → ∀ m ∈ sends.filterMap Send.toHigher, UpMessage b.keys m
  apart : b.Apart name → b'.Apart name

section

variable {b b' : DdBroker H} {sends : List Send} {name : CStr}

theorem has_congr (hlcl : b'.lclCliHt = b.lclCliHt) (hdist : b'.distCliHt = b.distCliHt)
    (name : CStr) : b'.Has name ↔ b.Has name :=
  or_congr (HasClient.congr hlcl name) (exists_congr (Maps.congr hdist name))

theorem apart_congr (hlcl : b'.lclCliHt = b.lclCliHt) (hdist : b'.distCliHt = b.distCliHt)
    (h : b.Apart name) : b'.Apart name := fun hc s hm =>
  h ((HasClient.congr hlcl name).mp hc) s ((Maps.congr hdist name s).mp hm)

/-- A step that leaves the tables and says nothing about names. -/
theorem OwnStep.quiet (hlcl : b'.lclCliHt = b.lclCliHt) (hdist : b'.distCliHt = b.distCliHt)
    (hquiet : sends.filterMap Send.toHigher = []) : OwnStep b b' sends name where
  maps := Maps.congr hdist name
  tells _ := by
    rw [notices, hquiet]
    exact (has_congr hlcl hdist name).symm
  ups _ m hm := by
    rw [hquiet] at hm
    cases hm
  apart := apart_congr hlcl hdist

variable [DecidableEq H] {env : Env H}

/-- **Routing** asks for a name that the broker does not have. -/
theorem own_carry (hinj : Function.Injective env.xxh32) {self : DdBroker H}
    (hok : TablesOk env self)
    (hself : SameTables b self) (hstate : self.state = b.state) {srcpublic dstpublic : Bool}
    {src dst : CStr} {payload : List Frame} {nodst : Outcome H} (hlcl : b'.lclCliHt = b.lclCliHt)
    (hdist : b'.distCliHt = b.distCliHt)
    (h : carry env self srcpublic dstpublic src dst payload nodst = .done b' sends) :
    OwnStep b b' sends name := by
  by_cases hreg : b.state = .registered
  · obtain hups | ⟨hrev, hdst, hups⟩ := @ups_carry H _ env self srcpublic
      dstpublic src dst payload nodst
      (hstate.trans hreg)
    · rw [h] at hups
      exact .quiet hlcl hdist hups
    · rw [h] at hups
      have hsends : sends.filterMap Send.toHigher = _ := hups
      refine ⟨Maps.congr hdist name, fun _ => ?_, fun _ m hm => ?_, apart_congr hlcl hdist⟩
      · rw [notices, hsends, List.filterMap_cons, noticeFor_forward]
        by_cases hname : dst = name
        · subst hname
          have hnot : ¬ b.Has dst := by
            rw [← has_congr hself.lclCliHt hself.distCliHt]
            rintro (hc | ⟨s, hm⟩)
            · exact (hok.hasRev_eq_none hinj).mp hrev hc
            · obtain ⟨dn, hdn, -⟩ := (hok.maps_iff hinj).mp hm
              rw [hdst] at hdn
              cases hdn
          rw [if_pos rfl]
          exact ⟨hnot, iff_of_false not_false ((has_congr hlcl hdist dst).not.mpr hnot)⟩
        · rw [if_neg hname]
          exact (has_congr hlcl hdist name).symm
      · rw [hsends, List.mem_singleton] at hm
        rw [hm, hself.keys]
        exact .forward src dst payload
  · exact ⟨Maps.congr hdist name, fun h => absurd h hreg, fun h => absurd h hreg,
      apart_congr hlcl hdist⟩

/-- A client that goes takes its name. -/
theorem names_removeClient (hinj : Function.Injective env.xxh32) (hok : TablesOk env b)
    {c : LocalClient} {s : Frame} (hc : c ∈ b.lclCliHt.nodes)
    (h : removeClient env b s c = some b') : (∀ name, b'.HasClient name ↔
      b.HasClient name ∧ name ≠ c.prefixName) ∧ b'.distCliHt = b.distCliHt := by
  constructor
  · intro name
    have hmem := (hok.removeClient_spec hinj hc h).2
    constructor
    · rintro ⟨c', hc', rfl⟩
      obtain ⟨hc', hne⟩ := (hmem c').mp hc'
      refine ⟨⟨c', hc', rfl⟩, fun hname => hne ?_⟩
      exact List.inj_on_of_nodup_map hok.revNodup ((hok.same c').mpr hc') ((hok.same c).mpr hc)
        (congrArg prenameKey hname)
    · rintro ⟨⟨c', hc', rfl⟩, hne⟩
      exact ⟨c', (hmem c').mpr ⟨hc', fun h => hne (h ▸ rfl)⟩, rfl⟩
  · obtain ⟨⟨b₁, n⟩, hb, rfl⟩ := Option.map_eq_some_iff.mp h
    obtain rfl | ⟨root, rfl⟩ := removeSubscriptions_eq hb <;> rfl

/-- What else stays when a client goes. -/
theorem removeClient_state {c : LocalClient} {s : Frame} (h : removeClient env b s c = some b') :
    b'.state = b.state := by
  obtain ⟨⟨b₁, n⟩, hb, rfl⟩ := Option.map_eq_some_iff.mp h
  obtain rfl | ⟨root, rfl⟩ := removeSubscriptions_eq hb <;> rfl

omit [DecidableEq H] in
theorem notices_delCliUp (hreg : b.state = .registered) (name' : CStr) :
    notices name (delCliUp b name') = if name' = name then [.del] else [] := by
  rw [notices, ups_delCliUp hreg, List.filterMap_cons, noticeFor_unregdcli]
  by_cases hname : name' = name
  · rw [if_pos hname, if_pos hname]
    rfl
  · rw [if_neg hname, if_neg hname]
    rfl

/-- **A client that goes** is told upwards. -/
theorem own_removeClient (hinj : Function.Injective env.xxh32) (hok : TablesOk env b)
    {c : LocalClient} {s : Frame} (hc : c ∈ b.lclCliHt.nodes)
    (h : removeClient env b s c = some b') (hapart : b.Apart name) :
    OwnStep b b' (delCliUp b c.prefixName) name := by
  obtain ⟨hclients, hdist⟩ := names_removeClient hinj hok hc h
  refine ⟨Maps.congr hdist name, fun hreg => ?_, fun hreg m hm => ?_, fun hap hc' s hm => ?_⟩
  · rw [notices_delCliUp hreg]
    by_cases hname : c.prefixName = name
    · subst hname
      have hhas : b.HasClient c.prefixName := ⟨c, hc, rfl⟩
      rw [if_pos rfl]
      refine iff_of_false not_false ?_
      rintro (hc' | ⟨s, hm⟩)
      · exact ((hclients _).mp hc').2 rfl
      · exact hapart hhas s ((Maps.congr hdist _ s).mp hm)
    · rw [if_neg hname]
      refine or_congr ?_ (exists_congr fun s => (Maps.congr hdist name s).symm)
      rw [hclients]
      exact (and_iff_left (Ne.symm hname)).symm
  · rw [ups_delCliUp hreg, List.mem_singleton] at hm
    rw [hm]
    exact .unregdcli _
  · exact hap ((hclients name).mp hc').1 s ((Maps.congr hdist name s).mp hm)

omit [DecidableEq H] in
theorem notices_append (name : CStr) (s₁ s₂ : List Send) :
    notices name (s₁ ++ s₂) = notices name s₁ ++ notices name s₂ := by
  rw [notices, List.filterMap_append, List.filterMap_append, notices, notices]

omit [DecidableEq H] in
/-- One step after the other. -/
theorem OwnStep.trans {b₁ : DdBroker H} {s₁ s₂ : List Send} (h₁ : OwnStep b b₁ s₁ name)
    (hstate : b₁.state = b.state) (hkeys : b₁.keys = b.keys) (h₂ : OwnStep b₁ b' s₂ name) :
    OwnStep b b' (s₁ ++ s₂) name where
  maps s := (h₂.maps s).trans (h₁.maps s)
  tells hreg := by
    rw [notices_append]
    exact reads_append.mpr ⟨_, h₁.tells hreg, h₂.tells (hstate.trans hreg)⟩
  ups hreg m hm := by
    rw [List.filterMap_append] at hm
    obtain hm | hm := List.mem_append.mp hm
    · exact h₁.ups hreg m hm
    · exact hkeys ▸ h₂.ups (hstate.trans hreg) m hm
  apart h := h₂.apart (h₁.apart h)

/-- **The client timeouts.** -/
theorem own_checkClients (hinj : Function.Injective env.xxh32) {l : List LocalClient}
    (hok : TablesOk env b) (hapart : b.Apart name)
    (h : checkClients env l b = .done b' sends) : OwnStep b b' sends name := by
  induction l generalizing b sends with
  | nil =>
    cases h
    exact .quiet rfl rfl rfl
  | cons np rest ih =>
    rw [checkClients] at h
    split at h
    · have hok' : TablesOk env { b with
        cliTimeout := fun c => if c = np then b.cliTimeout np + 1 else b.cliTimeout c } :=
          { hok with }
      have htick := ih hok' hapart h
      exact ⟨htick.maps, htick.tells, htick.ups, htick.apart⟩
    · obtain ⟨b₁, s₁, s₂, h₁, h₂, rfl⟩ := Outcome.andThen_eq_done.mp h
      have hok₁ := hok.unregCli hinj h₁
      obtain ⟨-, rfl, rfl⟩ | ⟨c, hc, hr, rfl⟩ := sCbUnregCli_eq_done h₁
      · exact ih hok₁ hapart h₂
      · have hown := own_removeClient hinj hok (hok.of_hasLocal hinj hc).1 hr hapart
        exact hown.trans (removeClient_state hr) (removeClient_frame hr .none).keys
          (ih hok₁ (hown.apart hapart) h₂)

omit [DecidableEq H] in
theorem notices_addCliUp (hreg : b.state = .registered) (name' : CStr) (dist : UInt32) :
    notices name (addCliUp b name' dist) = if name' = name then [.add] else [] := by
  rw [notices, ups_addCliUp hreg, List.filterMap_cons, noticeFor_adddcl]
  by_cases hname : name' = name
  · rw [if_pos hname, if_pos hname]
    rfl
  · rw [if_neg hname, if_neg hname]
    rfl

omit [DecidableEq H] in
/-- An answer to a socket says nothing upwards. -/
theorem notices_rsock (name : CStr) (s : Frame) (m : List Frame) (sends : List Send) :
    notices name (.rsock s m :: sends) = notices name sends := rfl

/-- **A client that registers** is told upwards, under its whole name when that is short enough. -/
theorem own_register (hinj : Function.Injective env.xxh32) (hok : TablesOk env b) {s : Frame}
    {ten : DdTenant} {clientName : CStr} (hlen : (ten.name ++ dotStr ++ clientName).length ≤ 199)
    (h : registerClient env b s ten clientName = .done b' sends) : OwnStep b b' sends name := by
  unfold registerClient at h
  split at h
  · cases h
  · cases h
    exact .quiet rfl rfl rfl
  · next b₁ hins =>
    simp only at h
    obtain ⟨-, hdist, -, hrev, hb₁⟩ := insertLocalClient_eq hins
    have hjoined : joined 199 ten.name clientName = joined 255 ten.name clientName := by
      rw [joined, joined, CStr.truncate_of_le hlen, CStr.truncate_of_le (by omega)]
    rw [hjoined] at h
    generalize hnew : joined 255 ten.name clientName = new at *
    have hnot : ¬ b.Has new := by
      rintro (hc | ⟨s, hm⟩)
      · exact (hok.hasRev_eq_none hinj).mp hrev hc
      · obtain ⟨dn, hdn, -⟩ := (hok.maps_iff hinj).mp hm
        rw [hdist] at hdn
        cases hdn
    have hclients : ∀ name, b₁.HasClient name ↔ b.HasClient name ∨ name = new := by
      intro name
      simp only [DdBroker.HasClient, hb₁, Lfht.nodes_add, List.mem_append, List.mem_singleton,
        or_and_right, exists_or, exists_eq_left]
      exact or_congr_right eq_comm
    have hmaps : ∀ name s, b₁.Maps name s ↔ b.Maps name s := fun name =>
      Maps.congr (by rw [hb₁]; rfl) name
    cases h
    refine ⟨hmaps name, fun hreg => ?_, fun hreg m hm => ?_, fun hap hc s hm => ?_⟩
    · have hreg₁ : b'.state = .registered := by rw [hb₁]; exact hreg
      rw [notices_rsock, if_pos (by rw [hreg₁]; decide), notices_addCliUp hreg₁]
      by_cases hname : new = name
      · subst hname
        rw [if_pos rfl]
        exact ⟨hnot, iff_of_true trivial (Or.inl ((hclients new).mpr (Or.inr rfl)))⟩
      · rw [if_neg hname]
        refine or_congr ?_ (exists_congr fun s => (hmaps name s).symm)
        rw [hclients]
        exact (or_iff_left (Ne.symm hname)).symm
    · have hreg₁ : b'.state = .registered := by rw [hb₁]; exact hreg
      rw [if_pos (by rw [hreg₁]; decide)] at hm
      simp only [List.filterMap_cons, Send.toHigher, ups_addCliUp hreg₁, List.mem_singleton] at hm
      rw [hm, show b'.keys = b.keys by rw [hb₁]; rfl]
      exact .adddcl _ _
    · obtain hc | rfl := (hclients name).mp hc
      · exact hap hc s ((hmaps name s).mp hm)
      · exact hnot (Or.inr ⟨s, (hmaps _ s).mp hm⟩)

end

end DoubleDecker
