import DoubleDecker.Broker.Distant

/-!
# Broker/FullName — the name of a client, from its registration to its end

The full name of a client, `tenant.name`, is printed into 256 bytes when the client is entered, and
into 200 when `s_cb_challok` announces it; `s_cb_regok` announces it and `s_cb_unreg_cli` withdraws
it as it was entered.  The hash is taken over as many bytes as the name would have had.
-/

namespace DoubleDecker

variable {H : Type} [DecidableEq H] {env : Env H} {b b' : DdBroker H} {e : Event}
  {sends : List Send} {s : Frame} {hash clientName : CStr} {ten : DdTenant} {c : LocalClient}

/-- `tenant.name`. -/
def fullName (ten : DdTenant) (clientName : CStr) : CStr := ten.name ++ dotStr ++ clientName

/-- What messages upwards say about names. -/
def told (sends : List Send) : List (Notice × CStr) :=
  (sends.filterMap Send.toHigher).filterMap noticeOf

/-! ## What is told -/

omit [DecidableEq H] in
theorem told_addCliUp (b : DdBroker H) (name : CStr) (dist : UInt32) : told (addCliUp b name dist) =
    if b.state = .registered then [(.add, name)] else [] := by
  unfold addCliUp
  split
  · simp [told, Send.toHigher, noticeOf]
  · rfl

omit [DecidableEq H] in
theorem told_delCliUp (b : DdBroker H) (name : CStr) : told (delCliUp b name) =
    if b.state = .root then [] else [(.del, name)] := by
  unfold delCliUp
  by_cases hroot : b.state = .root
  · rw [if_neg (not_not.mpr hroot), if_pos hroot]
    rfl
  · rw [if_pos hroot, if_neg hroot]
    simp [told, Send.toHigher, noticeOf]

/-- **The announcements of `s_cb_regok`** name every client as it was entered. -/
theorem told_regok {msg rest : List Frame} (hm : dealerCmd msg = some (.regok, rest))
    (h : step env b (.dealer msg) = .done b' sends) (hc : c ∈ b.lclCliHt.nodes) :
    (.add, c.prefixName) ∈ told sends := by
  rw [step_dealer hm] at h
  change sCbRegok { b with timeout := 0 } rest = _ at h
  cases h
  rw [told, List.filterMap_append, List.filterMap_append, List.mem_append]
  refine Or.inl (List.mem_filterMap.mpr ⟨ddMsg .adddcl [b.keys.cookie.1, c.prefixName.bytes,
    le32 0],
    List.mem_filterMap.mpr ⟨_, List.mem_flatMap.mpr ⟨c, hc, List.mem_singleton_self _⟩, rfl⟩, ?_⟩)
  simp [noticeOf]

/-- **A client that leaves** is withdrawn under the name it was entered with, and is in neither
table. -/
theorem unregCli_name (hinj : Function.Injective env.xxh32) (hok : TablesOk env b) {cookie : Frame}
    (hc : hashtableHasLocalNode env b s cookie = some (some c))
    (h : sCbUnregCli env b s cookie = .done b' sends) :
    told sends = (if b.state = .root then [] else [(.del, c.prefixName)]) ∧
      hashtableHasRevLocalNode env b' c.prefixName = none ∧ ¬ b'.HasClient c.prefixName := by
  obtain ⟨hnone, -⟩ | ⟨c', hc', hrem, rfl⟩ := sCbUnregCli_eq_done h
  · rw [hc] at hnone
    cases hnone
  · rw [hc] at hc'
    cases hc'
    have hmem := (hok.of_hasLocal hinj hc).1
    have hgone : ¬ b'.HasClient c.prefixName := fun hn =>
      (((names_removeClient hinj hok hmem hrem).1 _).mp hn).2 rfl
    exact ⟨told_delCliUp b _, ((hok.removeClient hinj hmem hrem).hasRev_eq_none hinj).mpr hgone,
      hgone⟩

/-- **A name that is withdrawn is mapped no more.** -/
theorem withdrawn_gone (hinj : Function.Injective env.xxh32) (hok : TablesOk env b)
    {msg rest : List Frame} {kf : Frame} {name : CStr}
    (hm : routerCmd msg = some (s, .unregdcli, kf :: name.bytes :: rest))
    (hfrom : fromBroker env b s kf)
    (h : step env b (.router msg) = .done b' sends) (s' : Frame) : ¬ b'.Maps name s' := by
  obtain ⟨hno, rfl, -⟩ | ⟨-, rfl, -⟩ := unregdcli_cases hinj hok hm hfrom
    (CStr.ofBytes_bytes name) h
  · exact hno s'
  · exact fun hmaps => ((maps_removeDistNode hinj hok name name s').mp hmaps).2 rfl

/-! ## Registration -/

/-- A `CHALLOK` that asks for a registration runs the branch for a tenant. -/
theorem step_registerClient (h : request env b e = .register s hash ten clientName) :
    step env b e = registerClient env b s ten clientName := by
  obtain ⟨msg, cook, hashFrame, nameFrame, rest, rfl, hm, hcook, rfl, hten⟩ := request_register h
  have hch : challokRequest b s (cook :: hashFrame :: nameFrame :: rest) =
      .register s (CStr.ofBytes hashFrame) ten clientName := by
    simpa only [request, hm, routerRequest] using h
  rw [step_router hm]
  change sCbChallok env b s (cook :: hashFrame :: nameFrame :: rest) = _
  simp only [challokRequest] at hch
  split at hch
  · split at hch <;> cases hch
  · next hkeys =>
    rw [hten] at hch
    simp only at hch
    split at hch
    · next hpub =>
      cases hch
      simp only [sCbChallok, if_neg hkeys, hten, hcook, ne_eq, not_true_eq_false, if_false,
        if_neg hpub.2]
    · cases hch

/-- The code enters the client: no client or distant client has its name as it is printed, and none
has its socket id and cookie. -/
def Accepts (env : Env H) (b : DdBroker H) (s : Frame) (ten : DdTenant) (clientName : CStr) :
    Prop :=
  hashtableHasDistNode env b (joined 255 ten.name clientName) = none ∧
  hashtableHasRevLocalNode env b (joined 255 ten.name clientName) = none ∧
  hashtableHasLocalNode env b s ten.cookie.1 = some none

/-- **One name** — the client is entered and found under its name, announced and withdrawn with it
by every broker that has it, and once it is withdrawn a higher broker does not map what was
announced. -/
structure OneName (env : Env H) (b b' : DdBroker H) (sends : List Send) (c : LocalClient)
    (name : CStr) : Prop where
  entered : c ∈ b'.lclCliHt.nodes ∧ c ∈ b'.revLclCliHt.nodes ∧ c.prefixName = name
  found : hashtableHasRevLocalNode env b' name = some c
  announced : told sends = if b.state = .registered then [(.add, name)] else []
  reannounced : ∀ (cfg : Config) (b₁ b₂ : DdBroker H) (msg rest : List Frame) (sends₁ : List Send),
    Reachable env cfg b₁ → c ∈ b₁.lclCliHt.nodes → dealerCmd msg = some (.regok, rest) →
    step env b₁ (.dealer msg) = .done b₂ sends₁ → (.add, name) ∈ told sends₁
  withdrawn : ∀ (cfg : Config) (b₁ b₂ : DdBroker H) (s cookie : Frame) (sends₁ : List Send),
    Reachable env cfg b₁ → hashtableHasLocalNode env b₁ s cookie = some (some c) →
    sCbUnregCli env b₁ s cookie = .done b₂ sends₁ →
    told sends₁ = (if b₁.state = .root then [] else [(.del, name)]) ∧
      hashtableHasRevLocalNode env b₂ name = none ∧ ¬ b₂.HasClient name
  gone : ∀ announced, (.add, announced) ∈ told sends → ∀ (cfg : Config) (u u' : DdBroker H)
    (msg rest : List Frame) (s kf : Frame) (sends₁ : List Send), Reachable env cfg u →
    routerCmd msg = some (s, .unregdcli, kf :: name.bytes :: rest) → fromBroker env u s kf →
    step env u (.router msg) = .done u' sends₁ → ∀ s', ¬ u'.Maps announced s'

/-- What a client that is accepted leaves, when its name fits the buffer. -/
theorem registerClient_eq (hacc : Accepts env b s ten clientName)
    (hlen : (fullName ten clientName).length ≤ 255) : ∃ b' c,
      c ∈ b'.lclCliHt.nodes ∧ c ∈ b'.revLclCliHt.nodes ∧ c.prefixName = fullName ten clientName ∧
      b'.state = b.state ∧ registerClient env b s ten clientName = .done b'
        (.rsock s (ddMsg .regok [ten.cookie.1]) ::
          if b'.state ≠ .root then addCliUp b' (joined 199 ten.name clientName) 0 else []) := by
  obtain ⟨hdist, hrev, hlocal⟩ := hacc
  have hfull : joined 255 ten.name clientName = fullName ten clientName := CStr.truncate_of_le hlen
  obtain ⟨b', hins⟩ : ∃ b', insertLocalClient env b s ten clientName = some (some b') := by
    have hfits : ¬ 255 < (ten.name ++ dotStr ++ clientName).length := Nat.not_lt.mpr hlen
    rw [insertLocalClient, if_neg hfits]
    simp [hdist, hrev, hlocal]
  obtain ⟨-, -, -, -, hb'⟩ := insertLocalClient_eq hins
  refine ⟨b', ⟨clientName, joined 255 ten.name clientName, ten.name, ten.cookie, s⟩, ?_, ?_, hfull,
    by rw [hb']; rfl, by rw [registerClient, hins]⟩
  · rw [hb', Lfht.nodes_add]
    exact List.mem_append_right _ (List.mem_singleton_self _)
  · rw [hb', Lfht.nodes_add]
    exact List.mem_append_right _ (List.mem_singleton_self _)

omit [DecidableEq H] in
/-- The announcement of a client that registers. -/
theorem told_register {c : Frame} (name : CStr) : told (.rsock s (ddMsg .regok [c]) ::
      if b.state ≠ .root then addCliUp b name 0 else []) =
    if b.state = .registered then [(.add, name)] else [] := by
  change told (if b.state ≠ .root then addCliUp b name 0 else []) = _
  cases hstate : b.state with
  | unreg => simp [told_addCliUp, hstate]
  | root => rfl
  | registered => simp [told_addCliUp, hstate]

/-- **A client has one name just when its name is short enough** for the buffers it is printed
into. -/
theorem one_name_iff (hinj : Function.Injective env.xxh32) {cfg : Config} (h : Reachable env cfg b)
    (hreq : request env b e = .register s hash ten clientName)
    (hacc : Accepts env b s ten clientName) :
    (∃ b' sends c, step env b e = .done b' sends ∧
      OneName env b b' sends c (fullName ten clientName)) ↔
    (fullName ten clientName).length ≤ 255 ∧
      (b.state = .registered → (fullName ten clientName).length ≤ 199) := by
  have hok := h.tablesOk hinj
  have hstep := step_registerClient hreq
  by_cases hlen : (fullName ten clientName).length ≤ 255
  · obtain ⟨b', c, hlcl, hrev, hname, hstate, heq⟩ := registerClient_eq hacc hlen
    rw [heq] at hstep
    have htold := told_register (s := s) (b := b')
      (c := ten.cookie.1) (joined 199 ten.name clientName)
    rw [hstate] at htold
    constructor
    · rintro ⟨b₁, sends, c₁, hstep₁, hone⟩
      refine ⟨hlen, fun hreg => ?_⟩
      rw [hstep, hstate] at hstep₁
      cases hstep₁
      have hann := hone.announced
      rw [htold, if_pos hreg, if_pos hreg] at hann
      exact CStr.truncate_eq_self_iff.mp (Prod.mk.inj (List.singleton_inj.mp hann)).2
    · rintro ⟨-, hshort⟩
      have hok' := hok.step hinj hstep
      have hreg' := (h.registryOk hinj).step hinj hok hstep
      rw [hstate] at hstep
      have hann : b.state = .registered → joined 199 ten.name clientName =
        fullName ten clientName :=
        fun hreg => CStr.truncate_of_le (hshort hreg)
      refine ⟨b', _, c, hstep, ⟨hlcl, hrev, hname⟩, ?_, ?_, ?_, ?_, ?_⟩
      · rw [← hname]
        exact ((hok'.namesConsistent hinj hreg').found c hlcl).2
      · rw [htold]
        split
        · next hreg => rw [hann hreg]
        · rfl
      · intro _ b₁ b₂ msg rest sends₁ h₁ hc hm hs
        exact hname ▸ told_regok hm hs hc
      · intro _ b₁ b₂ s' cookie sends₁ h₁ hc hs
        exact hname ▸ unregCli_name hinj (h₁.tablesOk hinj) hc hs
      · intro announced hmem _ u u' msg rest s' kf sends₁ hu hm hfrom hs
        rw [htold] at hmem
        split at hmem
        · next hreg =>
          rw [(Prod.mk.inj (List.mem_singleton.mp hmem)).2, hann hreg]
          exact withdrawn_gone hinj (hu.tablesOk hinj) hm hfrom hs
        · cases hmem
  · -- the hash reads past the buffer
    refine iff_of_false ?_ fun hcond => hlen hcond.1
    rintro ⟨b', sends, c, hstep', -⟩
    have hover : 255 < (ten.name ++ dotStr ++ clientName).length := Nat.lt_of_not_le hlen
    rw [hstep, registerClient, insertLocalClient, if_pos hover] at hstep'
    cases hstep'

/-- The `CHALLOK` of a client of the tenant `a`. -/
def registerEvent (name : CStr) : Event :=
  .router (challokMsg [1, 2, 3, 4, 5] (cookieOf 65) (text "hashA") name)

/-- A name of 200 bytes. -/
def longName : CStr := CStr.ofBytes (List.replicate 200 120)

/-- The tenant `a`. -/
def tenantA : DdTenant := ⟨text "a", cookieOf 65, []⟩

theorem regok_accepts (name : CStr) (hname : name = text "x" ∨ name = longName) :
    (runEvents plainEnv (ddBrokerNew _ lowerConfig) [regokEvent]).map (fun b =>
      decide (request plainEnv b (registerEvent name) =
          .register [1, 2, 3, 4, 5] (text "hashA") tenantA name ∧
        hashtableHasDistNode plainEnv b (joined 255 (text "a") name) = none ∧
        hashtableHasRevLocalNode plainEnv b (joined 255 (text "a") name) = none ∧
        hashtableHasLocalNode plainEnv b [1, 2, 3, 4, 5] (cookieOf 65).1 = some none ∧
        b.state = .registered)) = some true := by
  obtain rfl | rfl := hname <;> decide +kernel

/-- A client with a short name registers at a broker that has a higher one. -/
theorem one_name_regok : ∃ b : DdBroker (List UInt8), Reachable plainEnv lowerConfig b ∧
    b.state = .registered ∧ ∃ b' sends c,
      step plainEnv b (registerEvent (text "x")) = .done b' sends ∧
      OneName plainEnv b b' sends c (fullName tenantA (text "x")) := by
  obtain ⟨b, hb, hfacts⟩ := Option.map_eq_some_iff.mp (regok_accepts (text "x") (Or.inl rfl))
  obtain ⟨hreq, hdist, hrev, hlocal, hstate⟩ := of_decide_eq_true hfacts
  have hreach : Reachable plainEnv lowerConfig b := ⟨_, .of_runEvents hb⟩
  exact ⟨b, hreach, hstate, (one_name_iff (fun _ _ h => h) hreach hreq ⟨hdist, hrev, hlocal⟩).mpr
    ⟨by decide, fun _ => by decide⟩⟩

theorem longName_told : (runEvents plainEnv (ddBrokerNew _ lowerConfig) [regokEvent]).map (fun b =>
    decide (told (step plainEnv b (registerEvent longName)).sends =
      [(.add, fullName tenantA longName)])) = some false := by
  decide +kernel

/-- **A client with a long name has two**: it is announced with the first 199 bytes. -/
theorem not_one_name : ¬ ∀ (H : Type) [DecidableEq H] (env : Env H),
    Function.Injective env.xxh32 → ∀ (cfg : Config) (b : DdBroker H), Reachable env cfg b →
    ∀ (e : Event) (s : Frame) (hash clientName : CStr) (ten : DdTenant),
    request env b e = .register s hash ten clientName → Accepts env b s ten clientName →
    ∃ b' sends c, step env b e = .done b' sends ∧
      OneName env b b' sends c (fullName ten clientName) := by
  intro hall
  obtain ⟨b, hb, hfacts⟩ := Option.map_eq_some_iff.mp (regok_accepts longName (Or.inr rfl))
  obtain ⟨hreq, hdist, hrev, hlocal, hstate⟩ := of_decide_eq_true hfacts
  obtain ⟨b', sends, c, hstep, hone⟩ := hall _ plainEnv Function.injective_id lowerConfig b
    ⟨_, .of_runEvents hb⟩ _ _ _ _ _ hreq ⟨hdist, hrev, hlocal⟩
  have htold := longName_told
  rw [hb, Option.map_some, hstep, Option.some.injEq] at htold
  have hann := hone.announced
  rw [if_pos hstate] at hann
  exact absurd hann (of_decide_eq_false htold)

end DoubleDecker
