import DoubleDecker.Broker.Announce

/-!
# Broker/Registry — clients, distant clients and brokers

The names of the local clients, those of the distant ones and the lower brokers are kept in three
tables that are filled and emptied by different messages.  `RegistryOk` is what they agree on: no
name is both local and distant, and every distant client hangs under a registered broker.
-/

namespace DoubleDecker

variable {H : Type} [DecidableEq H] {env : Env H} {b b' : DdBroker H} {e : Event}
  {sends : List Send}

/-! ## The requests about brokers and distant clients -/

/-- Where a request about a broker or a distant client comes from. -/
def Request.Asked (env : Env H) (self : DdBroker H) (e : Event) : Request → Prop
  | .addBroker _ cookie => cookie = self.keys.cookie
  | .addDist s name _ => hashtableHasRevLocalNode env self name = Option.none ∧
      ∃ msg cookie nameFrame rest, e = .router msg ∧
        routerCmd msg = some (s, .adddcl, cookie :: nameFrame :: rest) ∧
        fromBroker env self s cookie ∧ CStr.ofBytes nameFrame = name
  | .delDist s name => ∃ msg cookie nameFrame rest, e = .router msg ∧
      routerCmd msg = some (s, .unregdcli, cookie :: nameFrame :: rest) ∧
      fromBroker env self s cookie ∧ CStr.ofBytes nameFrame = name
  | .dropDist name => ∃ msg, e = .dealer msg ∧ refusalOf msg = some name
  | .expireBrokers => e = .checkBrTimeout
  | _ => True

omit [DecidableEq H] in
theorem asked_challok [DecidableEq H] (self : DdBroker H) (e : Event) (sockid : Frame)
    (msg : List Frame) : (challokRequest self sockid msg).Asked env self e := by
  unfold challokRequest
  split
  · simp only
    split
    · split
      · rfl
      · trivial
    · split
      · trivial
      · split <;> trivial
  · trivial

theorem asked_router {self : DdBroker H} {msg rest : List Frame} {sockid : Frame} {cmd : Cmd}
    (hm : routerCmd msg = some (sockid, cmd, rest)) :
    (routerRequest env self sockid cmd rest).Asked env self (.router msg) := by
  unfold routerRequest
  split
  · split
    · trivial
    · split <;> trivial
  · split
    · trivial
    · split <;> trivial
  · split <;> trivial
  · exact asked_challok self _ sockid _
  · split
    · next hfrom =>
      split
      · trivial
      · next hfree =>
        split
        · trivial
        · rw [not_or, Option.not_isSome_iff_eq_none] at hfree
          exact ⟨hfree.1, msg, _, _, _, rfl, hm, hfrom, rfl⟩
    · trivial
  · split
    · next hfrom => exact ⟨msg, _, _, _, rfl, hm, hfrom, rfl⟩
    · trivial
  · trivial

theorem asked_dealer {self : DdBroker H} {msg rest : List Frame} {cmd : Cmd}
    (hm : dealerCmd msg = some (cmd, rest)) :
    (dealerRequest env self cmd rest).Asked env self (.dealer msg) := by
  unfold dealerRequest
  split
  · split
    · next hcode =>
      split
      · trivial
      · exact ⟨msg, rfl, refusalOf_eq_some.mpr ⟨_, _, _, hm, hcode, rfl⟩⟩
    · trivial
  · trivial

/-- **Every request is asked for by the event it was decoded from.** -/
theorem asked (self : DdBroker H) (e : Event) : (request env self e).Asked env self e := by
  cases e with
  | router msg =>
    simp only [request]
    split
    · trivial
    · next hm => exact asked_router hm
  | dealer msg =>
    simp only [request]
    split
    · trivial
    · next hm => exact asked_dealer hm
  | checkBrTimeout => rfl
  | subN | subS | pubN | pubS | register | heartbeat | checkCliTimeout => trivial

/-! ## What the three tables agree on -/

/-- **Clients, distant clients and brokers.** -/
structure RegistryOk (b : DdBroker H) : Prop where
  /-- No name is both that of a client and that of a distant one. -/
  apart : ∀ name, b.Apart name
  /-- A distant client hangs under a broker. -/
  hung : ∀ name s, b.Maps name s → ∃ br ∈ b.lclBrHt.nodes, br.sockid = s
  /-- All brokers have the one cookie. -/
  cookie : ∀ br ∈ b.lclBrHt.nodes, br.cookie = b.keys.cookie

omit [DecidableEq H] in
/-- The same names, brokers and keys. -/
theorem RegistryOk.congr (h : RegistryOk b) (hkeys : b'.keys = b.keys)
    (hlcl : b'.lclCliHt = b.lclCliHt) (hdist : b'.distCliHt = b.distCliHt)
    (hbr : b'.lclBrHt = b.lclBrHt) : RegistryOk b' := by
  refine ⟨fun name => apart_congr hlcl hdist (h.apart name), fun name s hm => ?_, fun br hmem => ?_⟩
  · rw [hbr]
    exact h.hung name s ((Maps.congr hdist name s).mp hm)
  · rw [hkeys]
    exact h.cookie br (hbr ▸ hmem)

omit [DecidableEq H] in
/-- Fewer names, with the same brokers and keys. -/
theorem RegistryOk.mono (h : RegistryOk b) (hkeys : b'.keys = b.keys) (hbr : b'.lclBrHt = b.lclBrHt)
    (hlcl : ∀ name, b'.HasClient name → b.HasClient name)
    (hdist : ∀ name s, b'.Maps name s → b.Maps name s) : RegistryOk b' where
  apart name hc s hm := h.apart name (hlcl name hc) s (hdist name s hm)
  hung name s hm := by
    rw [hbr]
    exact h.hung name s (hdist name s hm)
  cookie br hmem := by
    rw [hkeys]
    exact h.cookie br (hbr ▸ hmem)

/-- What goes with a client: its name, and its entries in the two stores of subscriptions. -/
theorem removeClient_eq {c : LocalClient} {s : Frame} (h : removeClient env b s c = some b') :
    ∃ root ht l r, b' = { b with
      topicsTrie := root, subscribeHt := ht, lclCliHt := l, revLclCliHt := r } := by
  obtain ⟨⟨b₁, n⟩, hb, rfl⟩ := Option.map_eq_some_iff.mp h
  obtain rfl | ⟨root, rfl⟩ := removeSubscriptions_eq hb
  · exact ⟨b₁.topicsTrie, b₁.subscribeHt, _, _, rfl⟩
  · exact ⟨root, _, _, _, rfl⟩

theorem RegistryOk.removeClient (hinj : Function.Injective env.xxh32) (hok : TablesOk env b)
    (h : RegistryOk b) {c : LocalClient} {s : Frame} (hc : c ∈ b.lclCliHt.nodes)
    (hr : removeClient env b s c = some b') : RegistryOk b' := by
  obtain ⟨hclients, hdist⟩ := names_removeClient hinj hok hc hr
  obtain ⟨root, ht, l, r, rfl⟩ := removeClient_eq hr
  exact h.mono rfl rfl (fun name hn => ((hclients name).mp hn).1) fun name s => id

omit [DecidableEq H] in
/-- A broker that goes takes its distant clients. -/
theorem RegistryOk.filterBroker (h : RegistryOk b) (np : LocalBroker) :
    RegistryOk { b with
      distCliHt := b.distCliHt.filter fun e => e.2.broker ≠ np.sockid
      lclBrHt := b.lclBrHt.filter fun e => e.2 ≠ np } := by
  have hdist : ∀ {name s}, DdBroker.Maps { b with
      distCliHt := b.distCliHt.filter fun e => e.2.broker ≠ np.sockid
      lclBrHt := b.lclBrHt.filter fun e => e.2 ≠ np } name s → b.Maps name s ∧ s ≠ np.sockid := by
    rintro name s ⟨dn, hdn, rfl, rfl⟩
    obtain ⟨p, hp, rfl⟩ := List.mem_map.mp hdn
    obtain ⟨hp, hne⟩ := List.mem_filter.mp hp
    exact ⟨⟨p.2, List.mem_map_of_mem hp, rfl, rfl⟩, of_decide_eq_true hne⟩
  refine ⟨fun name hc s hm => h.apart name hc s (hdist hm).1, fun name s hm => ?_, fun br hbr => ?_⟩
  · obtain ⟨hm, hne⟩ := hdist hm
    obtain ⟨br, hbr, rfl⟩ := h.hung name s hm
    obtain ⟨p, hp, rfl⟩ := List.mem_map.mp hbr
    have hkeep : decide (p.2 ≠ np) = true := decide_eq_true fun heq => hne (heq ▸ rfl)
    exact ⟨p.2, List.mem_map_of_mem (List.mem_filter.mpr ⟨hp, hkeep⟩), rfl⟩
  · obtain ⟨p, hp, rfl⟩ := List.mem_map.mp hbr
    exact h.cookie p.2 (List.mem_map_of_mem (List.mem_of_mem_filter hp))

/-- **Every request keeps the agreement.** -/
theorem RegistryOk.effect (hinj : Function.Injective env.xxh32) (hok : TablesOk env b)
    (h : RegistryOk b) {r : Request} (hr : r.Granted env b) (hasked : r.Asked env b e)
    (heff : r.effect env b = some b') : RegistryOk b' := by
  cases r with
  | none =>
    cases heff
    exact h
  | register s hash ten clientName =>
    obtain ⟨o, ho, rfl⟩ := Option.map_eq_some_iff.mp heff
    cases o with
    | none => exact h
    | some b₁ =>
      obtain ⟨-, hdist, -, -, rfl⟩ := insertLocalClient_eq ho
      refine ⟨fun name hc s' hm => ?_, h.hung, h.cookie⟩
      obtain ⟨c, hc, rfl⟩ := hc
      simp only [Option.getD_some, Lfht.nodes_add, List.mem_append, List.mem_singleton] at hc
      obtain hc | rfl := hc
      · exact h.apart _ ⟨c, hc, rfl⟩ s' hm
      · -- the new name was looked up among the distant ones
        obtain ⟨dn, hdn, -⟩ := (hok.maps_iff hinj).mp hm
        rw [hdist] at hdn
        cases hdn
  | sub ln s key =>
    obtain ⟨⟨b₁, n⟩, hb, heff⟩ := Option.bind_eq_some_iff.mp heff
    obtain ⟨⟨root, n⟩, -, rfl⟩ := Option.map_eq_some_iff.mp heff
    obtain ⟨ht, rfl⟩ := insertSubscription_frame hb
    exact h.congr rfl rfl rfl rfl
  | unsub ln s key =>
    obtain ⟨⟨b₁, n⟩, hb, rfl⟩ := Option.map_eq_some_iff.mp heff
    obtain rfl | ⟨root, rfl⟩ := removeSubscription_eq hb
    · exact h
    · exact h.congr rfl rfl rfl rfl
  | leave ln s =>
    obtain ⟨cookie, hln⟩ := hr
    exact h.removeClient hinj hok (hok.of_hasLocal hinj hln).1 heff
  | expel ln =>
    obtain ⟨name, hln⟩ := hr
    exact h.removeClient hinj hok (hok.of_hasRev hinj hln).1 heff
  | expire =>
    obtain ⟨sends, hcheck⟩ := Outcome.broker_eq_some.mp heff
    have hboth : TablesOk env b' ∧ RegistryOk b' := by
      refine checkClients_induction (P := fun b => TablesOk env b ∧ RegistryOk b)
        (fun b₁ np h₁ => ⟨{ h₁.1 with }, h₁.2.congr rfl rfl rfl rfl⟩) ?_ ⟨hok, h⟩ hcheck
      intro b₁ np b₂ sends₂ h₁ hu
      obtain ⟨-, rfl, -⟩ | ⟨c, hc, hrem, -⟩ := sCbUnregCli_eq_done hu
      · exact h₁
      · have hmem := (h₁.1.of_hasLocal hinj hc).1
        exact ⟨h₁.1.removeClient hinj hmem hrem, h₁.2.removeClient hinj h₁.1 hmem hrem⟩
    exact hboth.2
  | addBroker s cookie =>
    obtain ⟨o, -, rfl⟩ := Option.map_eq_some_iff.mp heff
    split
    · exact h
    · refine ⟨h.apart, fun name s' hm => ?_, fun br hbr => ?_⟩
      · obtain ⟨br, hbr, hs⟩ := h.hung name s' hm
        exact ⟨br, by rw [hashtableInsertLocalBroker, Lfht.nodes_add]; exact
          List.mem_append_left _ hbr, hs⟩
      · rw [hashtableInsertLocalBroker, Lfht.nodes_add, List.mem_append, List.mem_singleton] at hbr
        obtain hbr | rfl := hbr
        · exact h.cookie br hbr
        · exact hasked
  | addDist s name dist =>
    cases heff
    obtain ⟨hrev, msg, cookie, nameFrame, rest, -, -, hfrom, -⟩ := hasked
    refine ⟨fun name' hc s' hm => ?_, fun name' s' hm => ?_, h.cookie⟩
    · obtain hm | ⟨rfl, -⟩ := (maps_insertDistNode name s dist name' s').mp hm
      · exact h.apart name' hc s' hm
      · exact (hok.hasRev_eq_none hinj).mp hrev hc
    · obtain hm | ⟨-, rfl⟩ := (maps_insertDistNode name s dist name' s').mp hm
      · exact h.hung name' s' hm
      · obtain ⟨k, np, -, hnp⟩ := fromBroker_eq_true.mp hfrom
        rw [hok.hasBroker hinj, Option.some.injEq] at hnp
        have hkey : np.authKey = s' ++ k.1 := by simpa using List.find?_some hnp
        exact ⟨np, List.mem_of_find?_eq_some hnp, (append_cookie_inj hkey).1⟩
  | delDist s name =>
    cases heff
    split
    · exact h.mono rfl rfl (fun _ => id) fun name' s' hm =>
        ((maps_removeDistNode hinj hok name name' s').mp hm).1
    · exact h
  | dropDist name =>
    cases heff
    split
    · exact h.mono rfl rfl (fun _ => id) fun name' s' hm =>
        ((maps_removeDistNode hinj hok name name' s').mp hm).1
    · exact h
  | expireBrokers =>
    obtain ⟨sends, hcheck⟩ := Outcome.broker_eq_some.mp heff
    exact checkBrokers_induction (fun _ _ h₁ => h₁.congr rfl rfl rfl rfl)
      (fun _ np h₁ => h₁.filterBroker np) h hcheck

/-- **Every step keeps the agreement.** -/
theorem RegistryOk.step (hinj : Function.Injective env.xxh32) (hok : TablesOk env b)
    (h : RegistryOk b) (hstep : step env b e = .done b' sends) : RegistryOk b' := by
  obtain ⟨b₁, heff, hsame⟩ := step_effect hstep
  exact (h.effect hinj hok (granted b e) (asked b e) heff).congr hsame.keys hsame.lclCliHt
    hsame.distCliHt hsame.lclBrHt

/-- **Every reachable broker's tables agree.** -/
theorem Reachable.registryOk (hinj : Function.Injective env.xxh32) {cfg : Config}
    (h : Reachable env cfg b) : RegistryOk b := by
  suffices hboth : TablesOk env b ∧ RegistryOk b from hboth.2
  refine h.induction (P := fun b => TablesOk env b ∧ RegistryOk b) ⟨tablesOk_new cfg, ?_⟩
    fun b₁ b₂ e sends h₁ hs => ⟨h₁.1.step hinj hs, h₁.2.step hinj h₁.1 hs⟩
  refine ⟨fun name hc => ?_, fun name s hm => ?_, fun br hbr => ?_⟩
  · obtain ⟨c, hc, -⟩ := hc
    cases hc
  · obtain ⟨dn, hdn, -⟩ := hm
    cases hdn
  · cases hbr

/-! ## The tables of names -/

variable (env) in
/-- **The tables of names are consistent.** -/
structure NamesConsistent (b : DdBroker H) : Prop where
  /-- The two tables of clients hold the same records. -/
  same : b.lclCliHt.nodes.Perm b.revLclCliHt.nodes
  accounts : (b.lclCliHt.nodes.map fun c => (c.sockid, c.cookie)).Nodup
  names : (b.lclCliHt.nodes.map LocalClient.prefixName).Nodup
  distNames : (b.distCliHt.nodes.map DistClient.name).Nodup
  apart : ∀ c ∈ b.lclCliHt.nodes, ∀ d ∈ b.distCliHt.nodes, d.name ≠ c.prefixName
  found : ∀ c ∈ b.lclCliHt.nodes, hashtableHasLocalNode env b c.sockid c.cookie.1 = some (some c) ∧
    hashtableHasRevLocalNode env b c.prefixName = some c

theorem TablesOk.namesConsistent (hinj : Function.Injective env.xxh32) (hok : TablesOk env b)
    (hreg : RegistryOk b) : NamesConsistent env b := by
  have hnd : b.lclCliHt.nodes.Nodup := hok.lclNodup.of_map
  refine ⟨(List.perm_ext_iff_of_nodup hnd hok.revNodup.of_map).mpr fun c => (hok.same c).symm, ?_,
    hnd.map_on fun c hc c' hc' h => hok.prefixName_inj hc hc' h, ?_, fun c hc d hd h => ?_,
    fun c hc => ⟨hok.hasLocal_self hinj hc, hok.hasRev_self hinj hc⟩⟩
  · refine hnd.map_on fun c hc c' hc' h => List.inj_on_of_nodup_map hok.lclNodup hc hc' ?_
    obtain ⟨hs, hk⟩ := Prod.mk.inj h
    rw [LocalClient.authKey, hs, hk]
    rfl
  · refine hok.distNodup.of_map.map_on fun d hd d' hd' h => ?_
    exact List.inj_on_of_nodup_map hok.distNodup hd hd' (congrArg CStr.bytes h)
  · exact hreg.apart c.prefixName ⟨c, hc, rfl⟩ d.broker ⟨d, hd, h, rfl⟩

/-- **A `CHALLOK` that is not answered with a `REGOK`** leaves the broker as it is. -/
theorem challok_refused {s : Frame} {msg : List Frame}
    (h : sCbChallok env b s msg = .done b' sends) (hno : ∀ x ∈ sends, x.cmd ≠ some .regok) :
    b' = b := by
  rcases msg with _ | ⟨cook, _ | ⟨hash, _ | ⟨clientName, rest⟩⟩⟩
  · cases h
  · cases h
    rfl
  · cases h
    rfl
  · simp only [sCbChallok] at h
    split at h
    · split at h
      · cases h
      · split at h
        · cases h
          rfl
        · split at h
          · cases h
          · cases h
            rfl
          · cases h
            exact absurd (cmd_rsock _ _ _) (hno _ List.mem_cons_self)
    · split at h
      · cases h
        rfl
      · split at h
        · cases h
        · split at h
          · cases h
            rfl
          · split at h
            · cases h
              rfl
            · unfold registerClient at h
              split at h
              · cases h
              · cases h
                rfl
              · cases h
                exact absurd (cmd_rsock _ _ _) (hno _ List.mem_cons_self)

/-- **The tables of names of every reachable broker are consistent**, and a `CHALLOK` that is
refused changes nothing. -/
theorem names_consistent (hinj : Function.Injective env.xxh32) {cfg : Config}
    (h : Reachable env cfg b) : NamesConsistent env b ∧
      ∀ msg source rest b' sends, routerCmd msg = some (source, .challok, rest) →
        step env b (.router msg) = .done b' sends →
          (∀ x ∈ sends, x.cmd ≠ some .regok) → b' = b := by
  refine ⟨(h.tablesOk hinj).namesConsistent hinj (h.registryOk hinj), ?_⟩
  intro msg source rest b' sends hm hs hno
  rw [step_router hm] at hs
  exact challok_refused hs hno

/-- A broker and clients of two tenants register, and the broker announces a client of its own. -/
def namesRun : List Event :=
  [.router ([1] :: ddMsg .adddcl [(cookieOf 82).1, CStr.ascii "b.z", le32 1]),
  .router (challokMsg [3] (cookieOf 66) (text "hashB") (text "w")),
  .router (challokMsg [2] (cookieOf 65) (text "hashA") (text "x")),
  .router (challokMsg [1] (cookieOf 82) (text "hashR") (text "broker"))]

theorem namesRun_tables : (runEvents plainEnv (ddBrokerNew _ demoConfig) namesRun).map
    (fun b => (b.lclCliHt.nodes.length, b.distCliHt.nodes.length)) = some (2, 1) := by
  decide

/-- Two clients and the name of a third one at a lower broker. -/
theorem names_consistent_namesRun : ∃ b : DdBroker (List UInt8),
    Reachable plainEnv demoConfig b ∧ (b.lclCliHt.nodes.length, b.distCliHt.nodes.length) = (2, 1) ∧
      NamesConsistent plainEnv b ∧
      ∀ msg source rest b' sends, routerCmd msg = some (source, .challok, rest) →
        step plainEnv b (.router msg) = .done b' sends →
        (∀ x ∈ sends, x.cmd ≠ some .regok) → b' = b := by
  obtain ⟨b, hb, hlen⟩ := Option.map_eq_some_iff.mp namesRun_tables
  have hreach : Reachable plainEnv demoConfig b := ⟨namesRun, .of_runEvents hb⟩
  exact ⟨b, hreach, hlen, names_consistent (fun _ _ h => h) hreach⟩

end DoubleDecker
