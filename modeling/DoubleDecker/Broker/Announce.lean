import DoubleDecker.Broker.Names

/-!
# Broker/Announce — names from below and from above

Three messages are about a name of somebody else: the `ADDDCL` and the `UNREGDCLI` of a lower
broker, and the `REGFAIL` of the higher one (`subjectOf`).  Whatever else a broker handles leaves
its mappings of a name, and what it says upwards of it follows whether it has it (`own_step`).
-/

namespace DoubleDecker

variable {H : Type}

section

variable [DecidableEq H] {env : Env H} {b b' : DdBroker H} {sends : List Send} {name : CStr}

/-! ## The three messages -/

omit [DecidableEq H] in
/-- An entry that is added to `dist_cli_ht`. -/
theorem maps_insertDistNode (name' : CStr) (s : Frame) (dist : UInt32) (name : CStr) (s' : Frame) :
    (hashtableInsertDistNode env b name' s dist).Maps name s' ↔
      b.Maps name s' ∨ name = name' ∧ s' = s := by
  simp only [DdBroker.Maps, hashtableInsertDistNode, Lfht.nodes_add, List.mem_append,
    List.mem_singleton, or_and_right, exists_or, exists_eq_left]
  exact or_congr_right (and_congr eq_comm eq_comm)

/-- What is taken out of `dist_cli_ht` is the entry of the name. -/
theorem mem_removeDistNode (hinj : Function.Injective env.xxh32) (hok : TablesOk env b)
    {name : CStr} {d : DistClient} :
    d ∈ (hashtableRemoveDistNode env b name).distCliHt.nodes ↔
      d ∈ b.distCliHt.nodes ∧ d.name ≠ name := by
  have hmatch : ∀ d : DistClient, d.key = name.bytes → matchDistNode name d = some true :=
    fun d hd => by rw [matchDistNode, CStr.ext hd, startsWith_self]
  refine (Lfht.mem_nodes_del hinj hok.distKeyed hok.distNodup hmatch).trans ?_
  exact and_congr_right fun _ => not_congr ⟨fun h => CStr.ext h, congrArg CStr.bytes⟩

/-- An entry that is taken out of `dist_cli_ht`. -/
theorem maps_removeDistNode (hinj : Function.Injective env.xxh32) (hok : TablesOk env b)
    (name' name : CStr) (s : Frame) :
    (hashtableRemoveDistNode env b name').Maps name s ↔ b.Maps name s ∧ name ≠ name' := by
  constructor
  · rintro ⟨d, hd, rfl, rfl⟩
    obtain ⟨hd, hne⟩ := (mem_removeDistNode hinj hok).mp hd
    exact ⟨⟨d, hd, rfl, rfl⟩, hne⟩
  · rintro ⟨⟨d, hd, rfl, rfl⟩, hne⟩
    exact ⟨d, (mem_removeDistNode hinj hok).mpr ⟨hd, hne⟩, rfl, rfl⟩

omit [DecidableEq H] in
/-- A name is mapped to one socket id. -/
theorem TablesOk.maps_unique (hok : TablesOk env b) {s s' : Frame} (h : b.Maps name s)
    (h' : b.Maps name s') : s = s' := by
  obtain ⟨d, hd, rfl, rfl⟩ := h
  obtain ⟨d', hd', hname, rfl⟩ := h'
  rw [List.inj_on_of_nodup_map hok.distNodup hd hd' (congrArg CStr.bytes hname).symm]

theorem TablesOk.exists_maps_iff (hinj : Function.Injective env.xxh32) (hok : TablesOk env b) :
    (∃ s, b.Maps name s) ↔ (hashtableHasDistNode env b name).isSome := by
  simp only [hok.maps_iff hinj, Option.isSome_iff_exists]
  constructor
  · rintro ⟨s, dn, hdn, -⟩
    exact ⟨dn, hdn⟩
  · rintro ⟨dn, hdn⟩
    exact ⟨_, dn, hdn, rfl⟩

theorem TablesOk.has_iff (hinj : Function.Injective env.xxh32) (hok : TablesOk env b) :
    b.Has name ↔ (hashtableHasRevLocalNode env b name).isSome ∨
      (hashtableHasDistNode env b name).isSome := by
  refine or_congr ?_ (hok.exists_maps_iff hinj)
  rw [← not_iff_not, ← hok.hasRev_eq_none hinj, Option.not_isSome_iff_eq_none]

variable {s cookieFrame nameFrame : Frame} {msg rest : List Frame}

/-- **An `ADDDCL` of a lower broker** is refused when the name is taken, else entered. -/
theorem adddcl_cases (hinj : Function.Injective env.xxh32) (hok : TablesOk env b)
    (hm : routerCmd msg = some (s, .adddcl, cookieFrame :: nameFrame :: rest))
    (hfrom : fromBroker env b s cookieFrame) (hname : CStr.ofBytes nameFrame = name)
    (h : step env b (.router msg) = .done b' sends) :
    (b.Has name ∧ b' = b ∧ sends = remoteRegFailed s name) ∨
    (¬ b.Has name ∧ ∃ d, b' = hashtableInsertDistNode env b name s d ∧
      sends = addCliUp b name d) := by
  obtain ⟨cookie, np, hc, hnp⟩ := fromBroker_eq_true.mp hfrom
  rw [step_router hm] at h
  simp only [onRouterCmd, sCbAdddcl, hc, hnp, zmsgPopstr, hname] at h
  rw [hok.has_iff hinj]
  split at h
  · cases h
  · split at h
    · next hrev =>
      cases h
      exact Or.inl ⟨Or.inl hrev, rfl, rfl⟩
    · next hrev =>
      split at h
      · next hdist =>
        cases h
        exact Or.inl ⟨Or.inr hdist, rfl, rfl⟩
      · next hdist =>
        split at h
        · cases h
        · next d _ =>
          cases h
          exact Or.inr ⟨not_or.mpr ⟨hrev, hdist⟩, d, rfl, rfl⟩

/-- **An `UNREGDCLI` of a lower broker** takes the entry of its name, whoever made it. -/
theorem unregdcli_cases (hinj : Function.Injective env.xxh32) (hok : TablesOk env b)
    (hm : routerCmd msg = some (s, .unregdcli, cookieFrame :: nameFrame :: rest))
    (hfrom : fromBroker env b s cookieFrame) (hname : CStr.ofBytes nameFrame = name)
    (h : step env b (.router msg) = .done b' sends) :
    ((∀ s', ¬ b.Maps name s') ∧ b' = b ∧ sends = []) ∨
    ((∃ s', b.Maps name s') ∧ b' = hashtableRemoveDistNode env b name ∧
      sends = delCliUp b name) := by
  obtain ⟨cookie, np, hc, hnp⟩ := fromBroker_eq_true.mp hfrom
  rw [step_router hm] at h
  simp only [onRouterCmd, sCbUnregDistCli, hc, hnp, zmsgPopstr, hname] at h
  rw [← not_exists, hok.exists_maps_iff hinj]
  split at h
  · next hdist =>
    cases h
    exact Or.inr ⟨hdist, rfl, rfl⟩
  · next hdist =>
    cases h
    exact Or.inl ⟨hdist, rfl, rfl⟩

/-- **A `REGFAIL` of the higher broker** removes the client of the name, or else its entry. -/
theorem refusal_cases (hinj : Function.Injective env.xxh32) (hok : TablesOk env b)
    (hm : refusalOf msg = some name) (h : step env b (.dealer msg) = .done b' sends) :
    (∃ c ∈ b.lclCliHt.nodes, c.prefixName = name ∧
      removeClient env { b with timeout := 0 } c.sockid c = some b' ∧
      ∃ body, sends = [.rsock c.sockid (ddMsg .error body)]) ∨
    (¬ b.HasClient name ∧ ∃ s', b.Maps name s' ∧
      b' = hashtableRemoveDistNode env { b with timeout := 0 } name ∧
      sends = remoteRegFailed s' name) ∨
    (¬ b.Has name ∧ b' = { b with timeout := 0 } ∧ sends = []) := by
  obtain ⟨code, nameFrame, rest, hcmd, hcode, rfl⟩ := refusalOf_eq_some.mp hm
  rw [step_dealer hcmd] at h
  have hne : ddErrorRegfail ≠ ddErrorNodst := by decide
  have hrev : hashtableHasRevLocalNode env { b with timeout := 0 } (CStr.ofBytes nameFrame) =
    hashtableHasRevLocalNode env b (CStr.ofBytes nameFrame) := rfl
  have hdist : hashtableHasDistNode env { b with timeout := 0 } (CStr.ofBytes nameFrame) =
    hashtableHasDistNode env b (CStr.ofBytes nameFrame) := rfl
  simp only [onDealerCmd, sCbHighError, zmsgPop, hcode, if_neg hne, if_true, zmsgPopstr, hrev,
    hdist] at h
  split at h
  · next c hc =>
    obtain ⟨hmem, hname⟩ := hok.of_hasRev hinj hc
    split at h
    · cases h
    · next b₁ n hb₁ =>
      cases h
      refine Or.inl ⟨c, hmem, hname, ?_, _, rfl⟩
      rw [removeClient, hb₁]
      rfl
  · next hc =>
    have hnot := (hok.hasRev_eq_none hinj).mp hc
    split at h
    · next dn hdn =>
      cases h
      exact Or.inr (Or.inl ⟨hnot, dn.broker, (hok.maps_iff hinj).mpr ⟨dn, hdn, rfl⟩, rfl, rfl⟩)
    · next hdn =>
      cases h
      refine Or.inr (Or.inr ⟨?_, rfl, rfl⟩)
      rw [hok.has_iff hinj, hc, hdn]
      simp

/-! ## Other names -/

omit [DecidableEq H] in
/-- A step that takes or gives somebody else another name. -/
theorem OwnStep.other (hlcl : b'.HasClient name ↔ b.HasClient name)
    (hmaps : ∀ s, b'.Maps name s ↔ b.Maps name s)
    (hquiet : b.state = .registered → notices name sends = [])
    (hups : b.state = .registered → ∀ m ∈ sends.filterMap Send.toHigher, UpMessage b.keys m) :
    OwnStep b b' sends name where
  maps := hmaps
  tells hreg := by
    rw [hquiet hreg]
    exact or_congr hlcl.symm (exists_congr fun s => (hmaps s).symm)
  ups := hups
  apart hap hc s hm := hap (hlcl.mp hc) s ((hmaps s).mp hm)

omit [DecidableEq H] in
/-- The entry of another name is added. -/
theorem own_insertDistNode {name' : CStr} (hne : name' ≠ name) (s : Frame) (d : UInt32) :
    OwnStep b (hashtableInsertDistNode env b name' s d) (addCliUp b name' d) name := by
  refine .other (HasClient.congr rfl name) (fun s' => ?_) (fun hreg => ?_) fun hreg m hm => ?_
  · rw [maps_insertDistNode]
    exact or_iff_left fun h => hne h.1.symm
  · rw [notices_addCliUp hreg, if_neg hne]
  · rw [ups_addCliUp hreg, List.mem_singleton] at hm
    rw [hm]
    exact .adddcl name' d

/-- The entry of another name is taken out. -/
theorem own_removeDistNode (hinj : Function.Injective env.xxh32) (hok : TablesOk env b)
    {name' : CStr} (hne : name' ≠ name) :
    OwnStep b (hashtableRemoveDistNode env b name') (delCliUp b name') name := by
  refine .other (HasClient.congr rfl name) (fun s' => ?_) (fun hreg => ?_) fun hreg m hm => ?_
  · rw [maps_removeDistNode hinj hok]
    exact and_iff_left hne.symm
  · rw [notices_delCliUp hreg, if_neg hne]
  · rw [ups_delCliUp hreg, List.mem_singleton] at hm
    rw [hm]
    exact .unregdcli name'

/-- The refusal of another name. -/
theorem own_refusal (hinj : Function.Injective env.xxh32) (hok : TablesOk env b) {name' : CStr}
    (hne : name' ≠ name) (hm : refusalOf msg = some name')
    (h : step env b (.dealer msg) = .done b' sends) : OwnStep b b' sends name := by
  have hok' : TablesOk env { b with timeout := 0 } := { hok with }
  obtain ⟨c, hc, rfl, hr, body, rfl⟩ | ⟨-, s', -, rfl, rfl⟩ | ⟨-, rfl, rfl⟩ :=
    refusal_cases hinj hok hm h
  · obtain ⟨hclients, hdist⟩ := names_removeClient hinj hok' hc hr
    refine .other ?_ (Maps.congr hdist name) (fun _ => rfl) fun _ m hm' =>
      absurd hm' List.not_mem_nil
    rw [hclients]
    exact and_iff_left hne.symm
  · refine .other (HasClient.congr rfl name) (fun s => ?_) (fun _ => rfl) fun _ m hm' =>
      absurd hm' List.not_mem_nil
    rw [maps_removeDistNode hinj hok']
    exact and_iff_left hne.symm
  · exact .quiet rfl rfl rfl

/-! ## Every other event -/

variable {e : Event}

variable (env) in
/-- The name that a message of a registered lower broker, or of the higher one, is about. -/
def subjectOf (self : DdBroker H) : Event → Option CStr
  | .router msg =>
    match routerCmd msg with
    | some (source, .adddcl, cookie :: name :: _) =>
      if fromBroker env self source cookie then some (CStr.ofBytes name) else none
    | some (source, .unregdcli, cookie :: name :: _) =>
      if fromBroker env self source cookie then some (CStr.ofBytes name) else none
    | _ => none
  | .dealer msg => refusalOf msg
  | _ => none

/-- The broker registers anew: it is challenged, or answered with a `REGOK`. -/
def Event.relinks : Event → Bool
  | .dealer msg =>
    match dealerCmd msg with
    | some (.regok, _) | some (.chall, _) => true
    | _ => false
  | _ => false

variable (env) in
/-- The full name of the client an event registers fits the buffer it is announced from. -/
def Event.shortName (self : DdBroker H) (e : Event) : Prop :=
  ∀ sockid hash ten clientName, request env self e = .register sockid hash ten clientName →
    (ten.name ++ dotStr ++ clientName).length ≤ 199

/-- A request that leaves the tables of names. -/
def Request.leavesNames : Request → Bool
  | .none | .sub _ _ _ | .unsub _ _ _ | .addBroker _ _ => true
  | _ => false

theorem step_leavesNames (h : step env b e = .done b' sends)
    (hr : (request env b e).leavesNames) :
    b'.lclCliHt = b.lclCliHt ∧ b'.distCliHt = b.distCliHt := by
  obtain ⟨b₁, heff, hsame⟩ := step_effect h
  rw [hsame.lclCliHt, hsame.distCliHt]
  revert heff hr
  generalize request env b e = r
  intro hr heff
  cases r with
  | none =>
    cases heff
    exact ⟨rfl, rfl⟩
  | sub ln s key =>
    obtain ⟨⟨b₂, n⟩, hb₂, heff⟩ := Option.bind_eq_some_iff.mp heff
    obtain ⟨⟨root, n⟩, -, rfl⟩ := Option.map_eq_some_iff.mp heff
    obtain ⟨ht, rfl⟩ := insertSubscription_frame hb₂
    exact ⟨rfl, rfl⟩
  | unsub ln s key =>
    obtain ⟨⟨b₂, n⟩, hb₂, rfl⟩ := Option.map_eq_some_iff.mp heff
    obtain rfl | ⟨root, rfl⟩ := removeSubscription_eq hb₂ <;> exact ⟨rfl, rfl⟩
  | addBroker s cookie =>
    obtain ⟨o, -, rfl⟩ := Option.map_eq_some_iff.mp heff
    split <;> exact ⟨rfl, rfl⟩
  | register | leave | expel | expire | addDist | delDist | dropDist | expireBrokers => cases hr

/-- An event that changes no names and is not told upwards. -/
theorem own_of_ups (h : step env b e = .done b' sends) (hr : (request env b e).leavesNames)
    (hups : (step env b e).ups = []) : OwnStep b b' sends name := by
  obtain ⟨hlcl, hdist⟩ := step_leavesNames h hr
  rw [h] at hups
  exact .quiet hlcl hdist hups

/-- **A `CHALLOK`** registers a client, or changes no names. -/
theorem own_challok (hinj : Function.Injective env.xxh32) (hok : TablesOk env b)
    (hlong : ∀ sockid hash ten clientName,
      challokRequest b s msg = .register sockid hash ten clientName →
        (ten.name ++ dotStr ++ clientName).length ≤ 199)
    (h : sCbChallok env b s msg = .done b' sends) : OwnStep b b' sends name := by
  rcases msg with _ | ⟨cook, _ | ⟨hash, _ | ⟨clientName, rest⟩⟩⟩
  · cases h
  · cases h
    exact .quiet rfl rfl rfl
  · cases h
    exact .quiet rfl rfl rfl
  · simp only [sCbChallok] at h
    split at h
    · -- a broker: none of its frames is a name
      split at h
      · cases h
      · split at h
        · cases h
          exact .quiet rfl rfl rfl
        · split at h
          · cases h
          · cases h
            exact .quiet rfl rfl rfl
          · cases h
            exact .quiet rfl rfl rfl
    · next hhash =>
      split at h
      · cases h
        exact .quiet rfl rfl rfl
      · next ten hten =>
        split at h
        · cases h
        · next cookie hc =>
          split at h
          · cases h
            exact .quiet rfl rfl rfl
          · next hcookie =>
            split at h
            · cases h
              exact .quiet rfl rfl rfl
            · next hname =>
              refine own_register hinj hok (hlong s (CStr.ofBytes hash) ten _ ?_) h
              rw [not_not] at hcookie
              simp [challokRequest, hhash, hten, hc, hcookie, hname]

/-- A `SEND` is routed. -/
theorem own_send (hinj : Function.Injective env.xxh32) (hok : TablesOk env b) {cookie : Frame}
    (hlcl : b'.lclCliHt = b.lclCliHt) (hdist : b'.distCliHt = b.distCliHt)
    (h : sCbSend env b s cookie msg = .done b' sends) : OwnStep b b' sends name := by
  cases hln : hashtableHasLocalNode env b s cookie with
  | none =>
    simp only [sCbSend, hln] at h
    cases h
  | some o =>
    cases o with
    | none =>
      simp only [sCbSend, hln] at h
      cases h
      exact .quiet rfl rfl rfl
    | some ln =>
      cases msg with
      | nil =>
        simp only [sCbSend, hln, zmsgPopstr] at h
        cases h
      | cons dest payload =>
        rw [sCbSend_eq hln] at h
        exact own_carry hinj ((sameTables_touch b ln).tablesOk hok) (sameTables_touch b ln) rfl
          hlcl hdist h

/-- A `FORWARD` from below is routed. -/
theorem own_forward_rsock (hinj : Function.Injective env.xxh32) (hok : TablesOk env b)
    (hlcl : b'.lclCliHt = b.lclCliHt) (hdist : b'.distCliHt = b.distCliHt)
    (h : sCbForwardRsock env b s cookieFrame msg = .done b' sends) : OwnStep b b' sends name := by
  cases hc : readCookie cookieFrame with
  | none =>
    simp only [sCbForwardRsock, hc] at h
    cases h
  | some cookie =>
    cases hnp : hashtableHasLocalBroker env b s cookie with
    | none =>
      simp only [sCbForwardRsock, hc, hnp] at h
      cases h
    | some o =>
      cases o with
      | none =>
        simp only [sCbForwardRsock, hc, hnp] at h
        cases h
        exact .quiet rfl rfl rfl
      | some np =>
        rcases msg with _ | ⟨src, _ | ⟨dst, payload⟩⟩
        · simp only [sCbForwardRsock, hc, hnp] at h
          cases h
          exact .quiet rfl rfl rfl
        · simp only [sCbForwardRsock, hc, hnp] at h
          cases h
          exact .quiet rfl rfl rfl
        · rw [sCbForwardRsock_eq hc hnp] at h
          exact own_carry hinj ((sameTables_touchBroker b np).tablesOk hok)
            (sameTables_touchBroker b np) rfl hlcl hdist h

/-- A `FORWARD` from above is routed. -/
theorem own_forward_dsock (hinj : Function.Injective env.xxh32) (hok : TablesOk env b)
    (hlcl : b'.lclCliHt = b.lclCliHt) (hdist : b'.distCliHt = b.distCliHt)
    (h : sCbForwardDsock env { b with timeout := 0 } msg = .done b' sends) :
    OwnStep b b' sends name := by
  have hok' : TablesOk env { b with timeout := 0 } := { hok with }
  have hsame : SameTables b { b with timeout := 0 } := ⟨rfl, rfl, rfl, rfl, rfl, rfl, rfl, rfl, rfl⟩
  rcases msg with _ | ⟨src, _ | ⟨dst, payload⟩⟩
  · cases h
    exact .quiet rfl rfl rfl
  · cases h
    exact .quiet rfl rfl rfl
  · rw [sCbForwardDsock_eq] at h
    exact own_carry hinj hok' hsame rfl hlcl hdist h

/-- **An announcement or a withdrawal of somebody who is not registered as a broker** is dropped. -/
theorem step_stranger {cmd : Cmd} (hcmd : cmd = .adddcl ∨ cmd = .unregdcli)
    (hm : routerCmd msg = some (s, cmd, cookieFrame :: rest))
    (hfrom : fromBroker env b s cookieFrame = false)
    (h : step env b (.router msg) = .done b' sends) : b' = b ∧ sends = [] := by
  rw [step_router hm] at h
  unfold fromBroker at hfrom
  cases hc : readCookie cookieFrame with
  | none => obtain rfl | rfl := hcmd <;> simp [onRouterCmd, sCbAdddcl, sCbUnregDistCli, hc] at h
  | some cookie =>
    simp only [hc] at hfrom
    cases hnp : hashtableHasLocalBroker env b s cookie with
    | none =>
      obtain rfl | rfl := hcmd <;> simp [onRouterCmd, sCbAdddcl, sCbUnregDistCli, hc, hnp] at h
    | some o =>
      rw [hnp] at hfrom
      cases o with
      | none =>
        obtain rfl | rfl := hcmd <;>
          simpa [onRouterCmd, sCbAdddcl, sCbUnregDistCli, hc, hnp, eq_comm] using h
      | some np => cases hfrom

/-- An announcement or a withdrawal of another name. -/
theorem own_dcl (hinj : Function.Injective env.xxh32) (hok : TablesOk env b) {cmd : Cmd}
    (hcmd : cmd = .adddcl ∨ cmd = .unregdcli)
    (hm : routerCmd msg = some (s, cmd, cookieFrame :: rest))
    (hother : ∀ nameFrame rest', fromBroker env b s cookieFrame → rest = nameFrame :: rest' →
      CStr.ofBytes nameFrame ≠ name)
    (h : step env b (.router msg) = .done b' sends) : OwnStep b b' sends name := by
  cases hfrom : fromBroker env b s cookieFrame with
  | false =>
    obtain ⟨rfl, rfl⟩ := step_stranger hcmd hm hfrom h
    exact .quiet rfl rfl rfl
  | true =>
    cases rest with
    | nil =>
      obtain ⟨cookie, np, hc, hnp⟩ := fromBroker_eq_true.mp hfrom
      rw [step_router hm] at h
      obtain rfl | rfl := hcmd <;>
        simp [onRouterCmd, sCbAdddcl, sCbUnregDistCli, hc, hnp, zmsgPopstr] at h
    | cons nameFrame rest =>
      have hne := hother nameFrame rest hfrom rfl
      obtain rfl | rfl := hcmd
      · obtain ⟨-, rfl, rfl⟩ | ⟨-, d, rfl, rfl⟩ := adddcl_cases hinj hok hm hfrom rfl h
        · exact .quiet rfl rfl rfl
        · exact own_insertDistNode hne s d
      · obtain ⟨-, rfl, rfl⟩ | ⟨-, rfl, rfl⟩ := unregdcli_cases hinj hok hm hfrom rfl h
        · exact .quiet rfl rfl rfl
        · exact own_removeDistNode hinj hok hne

/-- The commands of the router that change no names and are not told upwards. -/
def Cmd.local : Cmd → Bool
  | .ping | .sub | .unsub | .pub | .addlcl | .addbr => true
  | _ => false

theorem ups_router {cmd : Cmd} (hcmd : cmd.local) : (onRouterCmd env b s cmd rest).ups = [] := by
  cases cmd with
  | ping =>
    cases rest with
    | nil => rfl
    | cons cookie msg => exact ups_ping
  | sub =>
    cases rest with
    | nil => rfl
    | cons cookie msg => exact ups_sub
  | unsub =>
    cases rest with
    | nil => rfl
    | cons cookie msg => exact ups_unsub
  | pub =>
    cases rest with
    | nil => rfl
    | cons cookie msg => exact ups_pub
  | addlcl => exact ups_addlcl
  | addbr => exact ups_addbr
  | send | forward | adddcl | unreg | unregdcli | unregbr | data | error | regok | pong | chall
  | challok | subok => cases hcmd

theorem leavesNames_router {cmd : Cmd} (hcmd : cmd.local) :
    (routerRequest env b s cmd rest).leavesNames := by
  unfold routerRequest
  split
  · split
    · rfl
    · split <;> rfl
  · split
    · rfl
    · split <;> rfl
  · cases hcmd
  · cases hcmd
  · cases hcmd
  · cases hcmd
  · rfl

/-- **A command of the router.** -/
theorem own_router (hinj : Function.Injective env.xxh32) (hok : TablesOk env b)
    (hapart : b.Apart name) {cmd : Cmd} (hm : routerCmd msg = some (s, cmd, rest))
    (hsubject : subjectOf env b (.router msg) ≠ some name)
    (hlong : (Event.router msg).shortName env b) (h : step env b (.router msg) = .done b' sends) :
    OwnStep b b' sends name := by
  have hstep : step env b (.router msg) = onRouterCmd env b s cmd rest := step_router hm
  have hreq : request env b (.router msg) = routerRequest env b s cmd rest := by rw [request, hm]
  have hlocal : cmd.local → OwnStep b b' sends name := fun hcmd =>
    own_of_ups h (hreq ▸ leavesNames_router hcmd) (hstep ▸ ups_router hcmd)
  rw [subjectOf, hm] at hsubject
  cases cmd with
  | send =>
    obtain ⟨hlcl, hdist⟩ := step_leavesNames h (by rw [hreq]; rfl)
    rw [hstep] at h
    cases rest with
    | nil =>
      cases h
      exact .quiet rfl rfl rfl
    | cons cookie msg' => exact own_send hinj hok hlcl hdist h
  | forward =>
    obtain ⟨hlcl, hdist⟩ := step_leavesNames h (by rw [hreq]; rfl)
    rw [hstep] at h
    cases rest with
    | nil =>
      cases h
      exact .quiet rfl rfl rfl
    | cons cookie msg' => exact own_forward_rsock hinj hok hlcl hdist h
  | adddcl =>
    cases rest with
    | nil =>
      rw [hstep] at h
      cases h
      exact .quiet rfl rfl rfl
    | cons cookieFrame rest =>
      refine own_dcl hinj hok (Or.inl rfl) hm
        (fun nameFrame rest' hfrom hrest hname => hsubject ?_) h
      simp [hrest, hfrom, hname]
  | unregdcli =>
    cases rest with
    | nil =>
      rw [hstep] at h
      cases h
      exact .quiet rfl rfl rfl
    | cons cookieFrame rest =>
      refine own_dcl hinj hok (Or.inr rfl) hm
        (fun nameFrame rest' hfrom hrest hname => hsubject ?_) h
      simp [hrest, hfrom, hname]
  | unreg =>
    rw [hstep] at h
    cases rest with
    | nil =>
      cases h
      exact .quiet rfl rfl rfl
    | cons cookie msg' =>
      obtain ⟨-, rfl, rfl⟩ | ⟨c, hc, hr, rfl⟩ := sCbUnregCli_eq_done h
      · exact .quiet rfl rfl rfl
      · exact own_removeClient hinj hok (hok.of_hasLocal hinj hc).1 hr hapart
  | challok =>
    rw [hstep] at h
    refine own_challok hinj hok (fun sockid hash ten clientName hr => ?_) h
    exact hlong sockid hash ten clientName (hreq.trans hr)
  | ping | sub | unsub | pub | addlcl | addbr => exact hlocal rfl
  | unregbr | data | error | regok | pong | chall | subok =>
    rw [hstep] at h
    cases h
    exact .quiet rfl rfl rfl

/-- **A message of the higher broker**, unless the broker registers anew. -/
theorem own_dealer (hinj : Function.Injective env.xxh32) (hok : TablesOk env b)
    (hsubject : subjectOf env b (.dealer msg) ≠ some name)
    (hlink : (Event.dealer msg).relinks = false) (h : step env b (.dealer msg) = .done b' sends) :
    OwnStep b b' sends name := by
  have hstep := h
  rcases sOnDealerMsg_eq env b msg with ⟨cmd, rest, hm, heq⟩ | ⟨-, heq | heq⟩
  · rw [step, heq] at h
    have hreq : request env b (.dealer msg) = dealerRequest env b cmd rest := by rw [request, hm]
    cases cmd with
    | forward =>
      obtain ⟨hlcl, hdist⟩ := step_leavesNames hstep (by rw [hreq]; rfl)
      exact own_forward_dsock hinj hok hlcl hdist h
    | error =>
      cases hrefuse : refusalOf msg with
      | some name' => exact own_refusal hinj hok (fun hn => hsubject (hn ▸ hrefuse)) hrefuse hstep
      | none =>
        refine own_of_ups hstep ?_ (by rw [step, heq]; exact ups_high_error)
        rw [hreq]
        rw [refusalOf, hm] at hrefuse
        rcases rest with _ | ⟨code, _ | ⟨nameFrame, rest⟩⟩
        · rfl
        · rfl
        · have hcode : readU32 code ≠ some ddErrorRegfail := fun hc => by simp [hc] at hrefuse
          rw [dealerRequest, if_neg hcode]
          rfl
    | regok | chall => simp [Event.relinks, hm] at hlink
    | send | ping | addlcl | adddcl | addbr | unreg | unregdcli | unregbr | data | pong | challok
    | pub | sub | unsub | subok =>
      cases h
      exact .quiet rfl rfl rfl
  · rw [step, heq] at h
    cases h
  · rw [step, heq] at h
    cases h
    exact .quiet rfl rfl rfl

omit [DecidableEq H] in
theorem checkBrokers_subset {l : List LocalBroker} (h : checkBrokers l b = .done b' sends) :
    ∀ np ∈ b'.lclBrHt.nodes, np ∈ b.lclBrHt.nodes := by
  refine checkBrokers_induction (P := fun b₁ => ∀ np ∈ b₁.lclBrHt.nodes, np ∈ b.lclBrHt.nodes)
    (fun _ _ h => h) (fun b₁ np h np' hnp' => h np' ?_) (fun _ h => h) h
  obtain ⟨p, hp, rfl⟩ := List.mem_map.mp hnp'
  exact List.mem_map_of_mem (List.mem_of_mem_filter hp)

omit [DecidableEq H] in
/-- **The broker timeouts** without one that expires. -/
theorem own_checkBrokers {l : List LocalBroker} (hl : ∀ np ∈ l, np ∈ b.lclBrHt.nodes)
    (hbr : b'.lclBrHt = b.lclBrHt) (h : checkBrokers l b = .done b' sends) :
    OwnStep b b' sends name := by
  induction l generalizing b sends with
  | nil =>
    cases h
    exact .quiet rfl rfl rfl
  | cons np rest ih =>
    rw [checkBrokers] at h
    split at h
    · have htick := ih (b := { b with
        brTimeout := fun br => if br = np then b.brTimeout np + 1 else b.brTimeout br })
        (fun np' hnp' => hl np' (List.mem_cons_of_mem _ hnp')) hbr h
      exact ⟨htick.maps, htick.tells, htick.ups, htick.apart⟩
    · -- the broker that goes would be missed
      obtain ⟨b₁, s₁, s₂, h₁, h₂, -⟩ := Outcome.andThen_eq_done.mp h
      cases h₁
      have hmem := checkBrokers_subset h₂ np (hbr ▸ hl np List.mem_cons_self)
      obtain ⟨p, hp, hnp⟩ := List.mem_map.mp hmem
      simp [hnp] at hp

/-- A message of the router that is no command is answered, or dropped. -/
theorem ups_no_command (hm : routerCmd msg = none) : (sOnRouterMsg env b msg).ups = [] := by
  unfold sOnRouterMsg
  split
  · next source proto cmdFrame rest =>
    split
    · rfl
    · next pver hver =>
      split
      · rfl
      · next hv =>
        split
        · rfl
        · next code hcode =>
          split
          · rfl
          · next cmd hcmd => simp [routerCmd, hver, not_not.mp hv, hcode, hcmd] at hm
  · rfl

omit [DecidableEq H] in
/-- **The timers of the registration.** -/
theorem own_timers (h : sRegister b = .done b' sends ∨ sHeartbeat b = .done b' sends) :
    OwnStep b b' sends name := by
  obtain h | h := h
  · unfold sRegister at h
    split at h
    · cases h
      exact .quiet rfl rfl rfl
    · next hreg =>
      cases h
      exact ⟨fun _ => Iff.rfl, fun h => absurd h hreg, fun h => absurd h hreg, id⟩
  · unfold sHeartbeat at h
    simp only at h
    have hsends : sends = [.dsock (ddMsg .ping [b.keys.cookie.1])] := by
      split at h <;> cases h <;> rfl
    have hlcl : b'.lclCliHt = b.lclCliHt ∧ b'.distCliHt = b.distCliHt := by
      split at h <;> cases h <;> exact ⟨rfl, rfl⟩
    refine .other (HasClient.congr hlcl.1 name) (Maps.congr hlcl.2 name)
      (fun _ => ?_) fun _ m hm => ?_
    · rw [hsends]
      simp [notices, Send.toHigher]
    · rw [hsends] at hm
      rw [List.mem_singleton.mp hm]
      exact .ping

/-- **Every other event** leaves the mappings of a name, and what is said upwards of it follows
whether the broker has it. -/
theorem own_step (hinj : Function.Injective env.xxh32) (hok : TablesOk env b)
    (hapart : b.Apart name) (hsubject : subjectOf env b e ≠ some name)
    (hlong : e.shortName env b) (hlink : e.relinks = false) (hbr : b'.lclBrHt = b.lclBrHt)
    (h : step env b e = .done b' sends) : OwnStep b b' sends name := by
  cases e with
  | router msg =>
    rcases sOnRouterMsg_eq env b msg with ⟨s, cmd, rest, hm, -⟩ | ⟨hm, heq | ⟨_, heq, herr⟩⟩
    · exact own_router hinj hok hapart hm hsubject hlong h
    · rw [step, heq] at h
      cases h
    · exact own_of_ups h (by rw [request, hm]; rfl) (ups_no_command hm)
  | dealer msg => exact own_dealer hinj hok hsubject hlink h
  | subN msg => exact own_of_ups h rfl ups_subN
  | subS msg => exact own_of_ups h rfl ups_subS
  | pubN msg => exact own_of_ups h rfl ups_pubN
  | pubS msg => exact own_of_ups h rfl ups_pubS
  | register => exact own_timers (Or.inl h)
  | heartbeat => exact own_timers (Or.inr h)
  | checkCliTimeout => exact own_checkClients hinj hok hapart h
  | checkBrTimeout => exact own_checkBrokers (fun _ h => h) hbr h

end

end DoubleDecker
