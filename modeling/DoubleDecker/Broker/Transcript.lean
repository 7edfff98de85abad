import DoubleDecker.Broker.Relabelled
import DoubleDecker.Hash.XXHash

/-!
# Broker/Transcript — what a run sends does not depend on the hash

The strings a run may hash are known before it starts (`hashed`).  When no two of them collide, the
states and everything that is sent are those of the broker with full keys (`transcript_exact`), and
with it the tables of names are consistent (`names_consistent_hashed`).
-/

namespace DoubleDecker

variable {H : Type} [DecidableEq H] {env : Env H}

/-! ## The strings of a request -/

/-- The strings of a request are in the vocabulary. -/
def Request.Within (V : Vocabulary) : Request → Prop
  | .register sockid _ ten clientName => sockid ∈ V.sockids ∧ (sockid, ten.cookie.1) ∈ V.accounts ∧
      joined 255 ten.name clientName ∈ V.names
  | .sub _ sockid _ => sockid ∈ V.sockids
  | .addBroker sockid cookie => (sockid, cookie.1) ∈ V.accounts
  | .addDist _ name _ => name ∈ V.names
  | _ => True

variable {V : Vocabulary} {b b' : DdBroker (List UInt8)} {e : Event} {sends : List Send}

theorem within_challok {sockid : Frame} {msg : List Frame}
    (h : (Cmd.challok.vocabulary b.keys sockid msg).Within V) :
    (challokRequest b sockid msg).Within V := by
  unfold challokRequest
  split
  · next cook hash clientName rest =>
    rw [Cmd.vocabulary] at h
    simp only
    split
    · next hbroker =>
      rw [if_pos hbroker] at h
      split
      · next hcookie =>
        rw [Request.Within, val_readCookie hcookie]
        exact h.accounts List.mem_cons_self
      · trivial
    · next hbroker =>
      rw [if_neg hbroker] at h
      split
      · trivial
      · next ten hten =>
        rw [hten] at h
        split
        · exact ⟨h.sockids List.mem_cons_self, h.accounts List.mem_cons_self,
            h.names List.mem_cons_self⟩
        · trivial
  · trivial

omit [DecidableEq H] in
theorem within_router {sockid : Frame} {cmd : Cmd} {msg : List Frame}
    (h : (cmd.vocabulary b.keys sockid msg).Within V) :
    (routerRequest env.exact b sockid cmd msg).Within V := by
  unfold routerRequest
  split
  · split
    · trivial
    · split
      · trivial
      · exact h.sockids List.mem_cons_self
  · split
    · trivial
    · split <;> trivial
  · split <;> trivial
  · exact within_challok h
  · split
    · split
      · trivial
      · split
        · trivial
        · exact h.names List.mem_cons_self
    · trivial
  · split <;> trivial
  · trivial

omit [DecidableEq H] in
/-- **What an event asks for is in the vocabulary.** -/
theorem within_request (he : e.Within b.keys V) : (request env.exact b e).Within V := by
  cases e with
  | router msg =>
    rw [Event.Within, Event.vocabulary] at he
    simp only [request]
    split
    · trivial
    · next hm =>
      rw [hm] at he
      exact within_router he
  | dealer msg =>
    simp only [request]
    split
    · trivial
    · unfold dealerRequest
      split
      · split
        · split <;> trivial
        · trivial
      · trivial
  | subN | subS | pubN | pubS | register | heartbeat | checkCliTimeout | checkBrTimeout => trivial

/-! ## The strings of the tables -/

omit [DecidableEq H] in
theorem DdBroker.Within.insertSubscription (hb : b.Within V) {sockid : Frame} {topic : CStr} {n : ℕ}
    (hs : sockid ∈ V.sockids)
    (h : DoubleDecker.insertSubscription env.exact b sockid topic = some (b', n)) :
      b'.Within V := by
  unfold DoubleDecker.insertSubscription at h
  split at h
  · cases h
  · split at h
    · cases h
      exact hb
    · cases h
      exact { hb with sub := hb.sub.modify _ _ _ }
  · cases h
    exact { hb with sub := hb.sub.add (Vocabulary.sockid_mem hs) _ }

omit [DecidableEq H] in
/-- A new client. -/
theorem DdBroker.Within.register (hb : b.Within V) {sockid : Frame} {ten : DdTenant}
    {clientName : CStr} (hs : sockid ∈ V.sockids) (ha : (sockid, ten.cookie.1) ∈ V.accounts)
    (hn : joined 255 ten.name clientName ∈ V.names)
    (h : insertLocalClient env.exact b sockid ten clientName = some (some b')) : b'.Within V := by
  obtain ⟨-, -, -, -, rfl⟩ := insertLocalClient_eq h
  have hnodes {c np : LocalClient} {k : List UInt8} (hmem : c ∈ (b.lclCliHt.add k np).nodes) :
      c ∈ b.lclCliHt.nodes ∨ c = np := by
    rwa [Lfht.nodes_add, List.mem_append, List.mem_singleton] at hmem
  refine { hb with
    lcl := hb.lcl.add (Vocabulary.account_mem ha) _
    rev := hb.rev.add (Vocabulary.prename_mem hn) _
    sockid := fun c hmem => ?_
    account := fun c hmem => ?_
    name := fun c hmem => ?_ }
  · obtain hmem | rfl := hnodes hmem
    · exact hb.sockid c hmem
    · exact hs
  · obtain hmem | rfl := hnodes hmem
    · exact hb.account c hmem
    · exact ha
  · obtain hmem | rfl := hnodes hmem
    · exact hb.name c hmem
    · exact hn

omit [DecidableEq H] in
/-- **A request keeps the tables in the vocabulary.** -/
theorem DdBroker.Within.effect (hb : b.Within V) {r : Request} (hr : r.Within V)
    (heff : r.effect env.exact b = some b') : b'.Within V := by
  cases r with
  | none =>
    cases heff
    exact hb
  | register s hash ten clientName =>
    obtain ⟨o, ho, rfl⟩ := Option.map_eq_some_iff.mp heff
    cases o with
    | none => exact hb
    | some b₁ => exact hb.register hr.1 hr.2.1 hr.2.2 ho
  | sub ln s key =>
    obtain ⟨⟨b₁, n⟩, hb₁, heff⟩ := Option.bind_eq_some_iff.mp heff
    obtain ⟨⟨root, n⟩, -, rfl⟩ := Option.map_eq_some_iff.mp heff
    exact { hb.insertSubscription hr hb₁ with }
  | unsub ln s key =>
    obtain ⟨⟨b₁, n⟩, hb₁, rfl⟩ := Option.map_eq_some_iff.mp heff
    obtain rfl | ⟨root, rfl⟩ := removeSubscription_eq hb₁
    · exact hb
    · exact hb.delSubscribe env root s
  | leave ln s => exact hb.removeClient heff
  | expel ln => exact hb.removeClient heff
  | expire =>
    obtain ⟨sends, hcheck⟩ := Outcome.broker_eq_some.mp heff
    refine checkClients_induction (P := fun b => b.Within V) (fun _ _ h => { h with }) ?_ hb hcheck
    intro b₁ np b₂ sends₂ h₁ hu
    obtain ⟨-, rfl, -⟩ | ⟨c, -, hrem, -⟩ := sCbUnregCli_eq_done hu
    · exact h₁
    · exact h₁.removeClient hrem
  | addBroker s cookie =>
    obtain ⟨o, -, rfl⟩ := Option.map_eq_some_iff.mp heff
    split
    · exact hb
    · exact { hb with br := hb.br.add (Vocabulary.account_mem hr) _ }
  | addDist s name dist =>
    cases heff
    exact { hb with dist := hb.dist.add (Vocabulary.name_mem hr) _ }
  | delDist s name =>
    cases heff
    split
    · exact { hb with dist := hb.dist.del _ _ }
    · exact hb
  | dropDist name =>
    cases heff
    split
    · exact { hb with dist := hb.dist.del _ _ }
    · exact hb
  | expireBrokers =>
    obtain ⟨sends, hcheck⟩ := Outcome.broker_eq_some.mp heff
    exact checkBrokers_induction (P := fun b => b.Within V) (fun _ _ h => { h with })
      (fun _ np h => { h with dist := h.dist.filter _, br := h.br.filter _ }) hb hcheck

omit [DecidableEq H] in
/-- **A step keeps the tables in the vocabulary.** -/
theorem DdBroker.Within.step (hb : b.Within V) (he : e.Within b.keys V)
    (hstep : step env.exact b e = .done b' sends) : b'.Within V := by
  obtain ⟨b₁, heff, hsame⟩ := step_effect hstep
  exact (hb.effect (within_request he) heff).sameTables hsame

/-! ## Whole runs -/

/-- What may be hashed in a run: what its events look up and enter. -/
def hashed (k : DdBrokerKeys) (es : List Event) : Vocabulary where
  sockids := es.flatMap fun e => (e.vocabulary k).sockids
  accounts := es.flatMap fun e => (e.vocabulary k).accounts
  names := es.flatMap fun e => (e.vocabulary k).names

theorem within_hashed (k : DdBrokerKeys) {es : List Event} (he : e ∈ es) :
    e.Within k (hashed k es) where
  sockids := fun _ h => List.mem_flatMap.mpr ⟨e, he, h⟩
  accounts := fun _ h => List.mem_flatMap.mpr ⟨e, he, h⟩
  names := fun _ h => List.mem_flatMap.mpr ⟨e, he, h⟩

omit [DecidableEq H] in
/-- The states of a run within the vocabulary. -/
theorem Run.within {cfg : Config} {es : List Event} (hrun : Run env.exact cfg es b)
    (hes : ∀ e ∈ es, e.Within cfg.keys V) : b.Within V := by
  induction hrun with
  | init =>
    have hnil {α : Type} : Lfht.Within ([] : Lfht (List UInt8) α) V.keys :=
      fun _ h => absurd h List.not_mem_nil
    exact ⟨hnil, hnil, hnil, hnil, hnil, fun _ h => absurd h List.not_mem_nil,
      fun _ h => absurd h List.not_mem_nil, fun _ h => absurd h List.not_mem_nil⟩
  | step hrun _ hs ih =>
    obtain ⟨he, hes⟩ := List.forall_mem_cons.mp hes
    exact (ih hes).step (hrun.keys ▸ he) hs

variable (env) in
/-- A run and what it sent at each step, the last one first. -/
def transcript (self : DdBroker H) : List Event → Option (DdBroker H × List (List Send))
  | [] => some (self, [])
  | e :: es => (transcript self es).bind fun p =>
    if e.enabled p.1 then
      match step env p.1 e with
      | .done self sends => some (self, sends :: p.2)
      | .fault _ => none
    else none

/-- A transcript is one of a run. -/
theorem transcript_run {cfg : Config} {es : List Event} {self : DdBroker H}
    {sent : List (List Send)}
    (h : transcript env (ddBrokerNew H cfg) es = some (self, sent)) : Run env cfg es self := by
  induction es generalizing self sent with
  | nil =>
    cases h
    exact .init
  | cons e es ih =>
    obtain ⟨⟨self₁, sent₁⟩, h₁, h⟩ := Option.bind_eq_some_iff.mp h
    split at h
    · next hen =>
      split at h
      · next self₂ sends hs =>
        cases h
        exact .step (ih h₁) hen hs
      · cases h
    · cases h

omit [DecidableEq H] in
theorem enabled_relabel (hash : List UInt8 → H) (self : DdBroker (List UInt8)) (e : Event) :
    e.enabled (self.relabel hash) = e.enabled self := by
  cases e <;> rfl

/-- The transcripts of the runs that stay in a vocabulary without collisions. -/
theorem transcript_relabel (hinj : Set.InjOn env.xxh32 V.keys) {cfg : Config}
    {es : List Event} (hes : ∀ e ∈ es, e.Within cfg.keys V) :
    transcript env (ddBrokerNew H cfg) es =
      (transcript env.exact (ddBrokerNew _ cfg) es).map fun p =>
        (p.1.relabel env.xxh32, p.2) := by
  induction es with
  | nil => rfl
  | cons e es ih =>
    obtain ⟨he, hes⟩ := List.forall_mem_cons.mp hes
    rw [transcript, transcript, ih hes]
    cases htranscript : transcript env.exact (ddBrokerNew _ cfg) es with
    | none => rfl
    | some p =>
      obtain ⟨self, sent⟩ := p
      have hrun := transcript_run htranscript
      have hstep := step_relabel hinj (hrun.within hes)
        (Reachable.tablesOk Function.injective_id ⟨es, hrun⟩) (hrun.keys ▸ he)
      simp only [Option.map_some, Option.bind_some, enabled_relabel, hstep]
      split_ifs
      · cases step env.exact self e <;> rfl
      · rfl

/-- **What a run sends does not depend on the hash**: when no two of the strings that are hashed in
it collide, its states are those of the broker with full keys, and each step sends the same, up to
the order in which it meets the nodes of a table. -/
theorem transcript_exact (cfg : Config) (es : List Event)
    (hinj : Set.InjOn env.xxh32 (hashed cfg.keys es).keys) :
    Option.Rel (fun p q => p.1 = q.1.relabel env.xxh32 ∧ List.Forall₂ List.Perm p.2 q.2)
      (transcript env (ddBrokerNew H cfg) es) (transcript env.exact (ddBrokerNew _ cfg) es) := by
  rw [transcript_relabel hinj fun _ => within_hashed cfg.keys]
  cases transcript env.exact (ddBrokerNew _ cfg) es with
  | none => exact .none
  | some p => exact .some ⟨rfl, List.forall₂_same.mpr fun _ _ => .refl _⟩

/-- The tables as the library hashes them. -/
def xxhEnv : Env UInt32 where
  xxh32 l := xxh32 l xxhSeed
  boxEasyAfternm plain _ _ := plain
  boxOpenEasyAfternm cipher _ _ := some cipher
  nonceIncrement := id

/-- The strings of a registration do not collide. -/
theorem injOn_headRun : Set.InjOn xxhEnv.xxh32 (hashed demoConfig.keys headRun).keys := by
  have hall : ∀ k ∈ (hashed demoConfig.keys headRun).strings,
      ∀ k' ∈ (hashed demoConfig.keys headRun).strings,
        xxhEnv.xxh32 k = xxhEnv.xxh32 k' → k = k' := by decide +kernel
  exact fun k hk k' hk' h => hall k hk k' hk' h

/-- A registration, hashed with `XXH32`. -/
theorem transcript_exact_headRun :
    Option.Rel (fun p q => p.1 = q.1.relabel xxhEnv.xxh32 ∧ List.Forall₂ List.Perm p.2 q.2)
      (transcript xxhEnv (ddBrokerNew _ demoConfig) headRun)
      (transcript xxhEnv.exact (ddBrokerNew _ demoConfig) headRun) :=
  transcript_exact demoConfig headRun injOn_headRun

/-! ## What holds without collisions -/

/-- A run has a transcript. -/
theorem Run.transcript {cfg : Config} {es : List Event} {self : DdBroker H}
    (h : Run env cfg es self) :
    ∃ sent, DoubleDecker.transcript env (ddBrokerNew H cfg) es = some (self, sent) := by
  induction h with
  | init => exact ⟨[], rfl⟩
  | step _ hen hs ih =>
    obtain ⟨sent, ih⟩ := ih
    exact ⟨_ :: sent, by rw [DoubleDecker.transcript, ih, Option.bind_some, if_pos hen, hs]⟩

/-- The state of a run without collisions is one with full keys. -/
theorem Run.exact {cfg : Config} {es : List Event} {self : DdBroker H} (hrun : Run env cfg es self)
    (hinj : Set.InjOn env.xxh32 (hashed cfg.keys es).keys) :
    ∃ b, Run env.exact cfg es b ∧ self = b.relabel env.xxh32 := by
  obtain ⟨sent, htranscript⟩ := hrun.transcript
  rw [transcript_relabel hinj fun _ => within_hashed cfg.keys] at htranscript
  obtain ⟨⟨b, sent'⟩, hb, heq⟩ := Option.map_eq_some_iff.mp htranscript
  exact ⟨b, transcript_run hb, (congrArg Prod.fst heq).symm⟩

/-- **The tables of names are consistent under the hash they really have**, in every run in which no
two of the hashed strings collide. -/
theorem names_consistent_hashed {cfg : Config} {es : List Event} {self : DdBroker H}
    (hrun : Run env cfg es self) (hinj : Set.InjOn env.xxh32 (hashed cfg.keys es).keys) :
    NamesConsistent env self := by
  obtain ⟨b, hb, rfl⟩ := hrun.exact hinj
  have hreach : Reachable env.exact cfg b := ⟨es, hb⟩
  have hwithin := hb.within fun _ => within_hashed cfg.keys
  obtain ⟨hsame, haccounts, hnames, hdist, hapart, hfound⟩ :=
    (hreach.tablesOk Function.injective_id).namesConsistent Function.injective_id
      (hreach.registryOk Function.injective_id)
  have hlcl : (b.relabel env.xxh32).lclCliHt.nodes = b.lclCliHt.nodes := Lfht.nodes_relabel _ _
  have hrev : (b.relabel env.xxh32).revLclCliHt.nodes = b.revLclCliHt.nodes :=
    Lfht.nodes_relabel _ _
  have hd : (b.relabel env.xxh32).distCliHt.nodes = b.distCliHt.nodes := Lfht.nodes_relabel _ _
  refine ⟨?_, ?_, ?_, ?_, ?_, fun c hc => ?_⟩
  · rwa [hlcl, hrev]
  · rwa [hlcl]
  · rwa [hlcl]
  · rwa [hd]
  · rwa [hlcl, hd]
  · rw [hlcl] at hc
    rw [hasLocal_relabel hinj hwithin (hwithin.account c hc),
      hasRev_relabel hinj hwithin (hwithin.name c hc)]
    exact hfound c hc

/-- The tables after a registration, hashed with `XXH32`. -/
theorem names_consistent_xxh32 : ∃ self : DdBroker UInt32,
    self.lclCliHt.nodes.map LocalClient.prefixName = [text "a.x"] ∧
      NamesConsistent xxhEnv self := by
  obtain ⟨self, hself, hname⟩ : ∃ self,
      runEvents xxhEnv (ddBrokerNew _ demoConfig) headRun = some self ∧
      self.lclCliHt.nodes.map LocalClient.prefixName = [text "a.x"] :=
    Option.map_eq_some_iff.mp (by decide +kernel)
  exact ⟨self, hname, names_consistent_hashed (Run.of_runEvents hself) injOn_headRun⟩

end DoubleDecker
