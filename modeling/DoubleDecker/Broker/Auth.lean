import DoubleDecker.Broker.Preserve

/-!
# Broker/Auth — for whom a broker acts

The commands of a client are accepted by one lookup: the hash of source and cookie, one after the
other, and a `memcmp` over the length of the source.  `authentic_iff`: the lookup is exact just when
no other client's socket id and cookie spell the same bytes.
-/

namespace DoubleDecker

variable {H : Type} [DecidableEq H] {env : Env H}

/-! ## The lookup behind a command -/

/-- The commands a broker carries out for a local client. -/
def Cmd.forClient : Cmd → Bool
  | .send | .pub | .sub | .unsub | .unreg | .ping => true
  | _ => false

variable (env) in
/-- **The entry a client's command is acted on for** — what `hashtable_has_local_node` returns for
the source and the cookie of the message. -/
def actedFor (self : DdBroker H) (msg : List Frame) : Option (Option LocalClient) :=
  match routerCmd msg with
  | some (source, cmd, cookie :: _) =>
    if cmd.forClient then hashtableHasLocalNode env self source cookie else some none
  | _ => some none

theorem actedFor_eq {self : DdBroker H} {msg rest : List Frame} {source cookie : Frame} {cmd : Cmd}
    (hmsg : routerCmd msg = some (source, cmd, cookie :: rest)) (hcmd : cmd.forClient) :
    actedFor env self msg = hashtableHasLocalNode env self source cookie := by
  rw [actedFor, hmsg]
  exact if_pos hcmd

/-- **A command without an entry does nothing**, but for a `PING`, which a broker may send. -/
theorem step_of_actedFor_none {self : DdBroker H} {msg rest : List Frame} {source cookie : Frame}
    {cmd : Cmd} (hmsg : routerCmd msg = some (source, cmd, cookie :: rest)) (hcmd : cmd.forClient)
    (hping : cmd ≠ .ping) (hnone : actedFor env self msg = some none) :
    step env self (.router msg) = .done self [] := by
  rw [actedFor_eq hmsg hcmd] at hnone
  obtain ⟨_, _, _, hmsg', heq⟩ | ⟨hmsg', -⟩ := sOnRouterMsg_eq env self msg
  · rw [hmsg] at hmsg'
    cases hmsg'
    rw [step, heq]
    cases cmd with
    | send => simp only [onRouterCmd, sCbSend, hnone]
    | pub => simp only [onRouterCmd, sCbPub, hnone]
    | sub => simp only [onRouterCmd, sCbSub, hnone]
    | unsub => simp only [onRouterCmd, sCbUnsub, hnone]
    | unreg => simp only [onRouterCmd, sCbUnregCli, hnone]
    | ping => exact absurd rfl hping
    | forward | addlcl | adddcl | addbr | unregdcli | unregbr | data | error | regok | pong
    | chall | challok | subok => cases hcmd
  · rw [hmsg] at hmsg'
    cases hmsg'

/-! ## Where clients come from -/

/-- **Created by a `CHALLOK`** — among the events is a `CHALLOK` from the client's socket id that
carried the cookie of its tenant and the tenant's hash, and whose step entered the client. -/
def CreatedBy (env : Env H) (cfg : Config) (es : List Event) (c : LocalClient) : Prop :=
  ∃ (es₁ es₂ : List Event) (self₁ self₂ : DdBroker H) (msg rest : List Frame) (sends : List Send)
    (cook hash name : Frame) (ten : DdTenant),
    es = es₂ ++ .router msg :: es₁ ∧ Run env cfg es₁ self₁ ∧
    step env self₁ (.router msg) = .done self₂ sends ∧
    c ∉ self₁.lclCliHt.nodes ∧ c ∈ self₂.lclCliHt.nodes ∧
    routerCmd msg = some (c.sockid, .challok, cook :: hash :: name :: rest) ∧
    readCookie cook = some c.cookie ∧ cfg.keys.tenant (CStr.ofBytes hash) = some ten ∧
    ten.name = c.tenant ∧ ten.cookie = c.cookie

theorem CreatedBy.cons {cfg : Config} {es : List Event} {c : LocalClient}
    (h : CreatedBy env cfg es c) (e : Event) : CreatedBy env cfg (e :: es) c := by
  obtain ⟨es₁, es₂, self₁, self₂, msg, rest, sends, cook, hash, name, ten, rfl, h⟩ := h
  exact ⟨es₁, e :: es₂, self₁, self₂, msg, rest, sends, cook, hash, name, ten, rfl, h⟩

omit [DecidableEq H] in
/-- The message behind a registration. -/
theorem challokRequest_register {self : DdBroker H} {sockid sockid' : Frame} {msg : List Frame}
    {hash name : CStr} {ten : DdTenant}
    (h : challokRequest self sockid msg = .register sockid' hash ten name) :
    sockid' = sockid ∧ ∃ cook hashFrame nameFrame rest,
      msg = cook :: hashFrame :: nameFrame :: rest ∧ readCookie cook = some ten.cookie ∧
      hash = CStr.ofBytes hashFrame ∧ self.keys.tenant hash = some ten := by
  unfold challokRequest at h
  split at h
  · next cook hashFrame nameFrame rest =>
    simp only at h
    split at h
    · split at h <;> cases h
    · split at h
      · cases h
      · next ten' hten =>
        split at h
        · next hok =>
          cases h
          exact ⟨rfl, cook, hashFrame, nameFrame, rest, rfl, hok.1, rfl, hten⟩
        · cases h
  · cases h

/-- Only a `CHALLOK` registers. -/
theorem request_register {self : DdBroker H} {e : Event} {sockid : Frame} {hash name : CStr}
    {ten : DdTenant} (h : request env self e = .register sockid hash ten name) :
    ∃ msg cook hashFrame nameFrame rest, e = .router msg ∧
      routerCmd msg = some (sockid, .challok, cook :: hashFrame :: nameFrame :: rest) ∧
      readCookie cook = some ten.cookie ∧ hash = CStr.ofBytes hashFrame ∧
      self.keys.tenant hash = some ten := by
  cases e with
  | router msg =>
    simp only [request] at h
    split at h
    · cases h
    · next sockid' cmd rest hmsg =>
      unfold routerRequest at h
      split at h
      · split at h
        · cases h
        · split at h <;> cases h
      · split at h
        · cases h
        · split at h <;> cases h
      · split at h <;> cases h
      · obtain ⟨rfl, cook, hashFrame, nameFrame, rest, rfl, hreg⟩ := challokRequest_register h
        exact ⟨msg, cook, hashFrame, nameFrame, rest, rfl, hmsg, hreg⟩
      · split at h
        · split at h
          · cases h
          · split at h <;> cases h
        · cases h
      · split at h <;> cases h
      · cases h
  | dealer msg =>
    simp only [request] at h
    split at h
    · cases h
    · unfold dealerRequest at h
      split at h
      · split at h
        · split at h <;> cases h
        · cases h
      · cases h
  | subN | subS | pubN | pubS | register | heartbeat | checkCliTimeout | checkBrTimeout => cases h

/-- The keys never change. -/
theorem Run.keys {cfg : Config} {es : List Event} {self : DdBroker H} (h : Run env cfg es self) :
    self.keys = cfg.keys := by
  induction h with
  | init => rfl
  | step _ _ hs ih => exact (step_frame hs).keys.trans ih

/-- **Every client was created by a `CHALLOK`.** -/
theorem Run.created {cfg : Config} {es : List Event} {self : DdBroker H} (h : Run env cfg es self) :
    ∀ c ∈ self.lclCliHt.nodes, CreatedBy env cfg es c := by
  induction h with
  | init => exact fun c hc => absurd hc List.not_mem_nil
  | @step es self self' e sends hrun hen hs ih =>
    intro c hc
    by_cases hold : c ∈ self.lclCliHt.nodes
    · exact (ih c hold).cons e
    · obtain hold' | ⟨sockid, hash, ten, name, hreq, -, rfl⟩ := (step_frame hs).clients c hc
      · exact absurd hold' hold
      · obtain ⟨msg, cook, hashFrame, nameFrame, rest, rfl, hmsg, hcook, rfl, hten⟩ :=
          request_register hreq
        exact ⟨es, [], self, self', msg, rest, sends, cook, hashFrame, nameFrame, ten, rfl, hrun,
          hs, hold, hc, hmsg, hcook, hrun.keys ▸ hten, rfl, rfl⟩

/-! ## Exactness -/

/-- **Acting for the right client** — the stored socket id is the source, the cookie frame is the
cookie of the client's tenant, and a `CHALLOK` from the source created the client. -/
structure Authentic (env : Env H) (cfg : Config) (es : List Event) (source cookie : Frame)
    (c : LocalClient) : Prop where
  sockid : c.sockid = source
  cookie : ∃ hash ten, cfg.keys.tenant hash = some ten ∧ ten.name = c.tenant ∧
    ten.cookie.1 = cookie
  created : CreatedBy env cfg es c

/-- A message of a client is authenticated exactly: the lookup reads no byte it must not read, and
an entry it finds is the right one. -/
def ExactFor (env : Env H) (cfg : Config) (es : List Event) (self : DdBroker H)
    (msg : List Frame) (source cookie : Frame) : Prop :=
  ∃ r, actedFor env self msg = some r ∧ ∀ c ∈ r, Authentic env cfg es source cookie c

/-- The `memcmp` of two socket ids, one of which starts the other, finds them equal or reads past
the shorter one. -/
theorem memcmpKey_of_append {stored source cookie cookie' : Frame}
    (h : stored ++ cookie = source ++ cookie') :
    memcmpKey stored source = some true ∨ memcmpKey stored source = none := by
  unfold memcmpKey
  split
  · next hle =>
    left
    rw [Option.some.injEq, List.isPrefixOf_iff_prefix]
    exact List.prefix_of_prefix_length_le (h ▸ List.prefix_append source cookie')
      (List.prefix_append stored cookie) hle
  · next hlt =>
    right
    rw [if_pos]
    rw [List.isPrefixOf_iff_prefix]
    exact List.prefix_of_prefix_length_le (h ▸ List.prefix_append stored cookie)
      (List.prefix_append source cookie') (Nat.le_of_not_le hlt)

/-- **When commands are authenticated exactly** — in every run, a command of a client is acted on
for the right entry just when no entry with another socket id spells the bytes of source and
cookie. -/
theorem exactFor_iff (hinj : Function.Injective env.xxh32) {cfg : Config} {es : List Event}
    {self : DdBroker H} (hrun : Run env cfg es self) {msg rest : List Frame} {source cookie : Frame}
    {cmd : Cmd} (hmsg : routerCmd msg = some (source, cmd, cookie :: rest))
    (hcmd : cmd.forClient) :
    ExactFor env cfg es self msg source cookie ↔
      ∀ c ∈ self.lclCliHt.nodes, c.sockid ++ c.cookie.1 = source ++ cookie →
        c.sockid = source := by
  have hok : TablesOk env self := Reachable.tablesOk hinj ⟨es, hrun⟩
  rw [ExactFor, actedFor_eq hmsg hcmd]
  constructor
  · rintro ⟨r, hr, hall⟩ c hc hkey
    by_contra hne
    rw [hok.hasLocal_of_mem hinj hc hkey] at hr
    obtain hm | hm := memcmpKey_of_append hkey
    · rw [hm] at hr
      cases hr
      exact hne (hall c rfl).sockid
    · rw [hm] at hr
      cases hr
  · intro hall
    by_cases hex : ∃ c ∈ self.lclCliHt.nodes, c.authKey = source ++ cookie
    · obtain ⟨c, hc, hkey⟩ := hex
      obtain rfl := hall c hc hkey
      refine ⟨some c, by rw [hok.hasLocal_of_mem hinj hc hkey, memcmpKey_self]; rfl, ?_⟩
      rintro _ ⟨⟩
      have hcreated := hrun.created c hc
      obtain ⟨_, _, _, _, _, _, _, _, hash, _, ten, _, _, _, _, _, _, _, hten, hname, hcookie⟩ :=
        id hcreated
      exact ⟨rfl, ⟨_, ten, hten, hname, hcookie ▸ List.append_cancel_left hkey⟩, hcreated⟩
    · exact ⟨none, hok.hasLocal_of_not_mem hinj fun c hc hk => hex ⟨c, hc, hk⟩, by simp⟩

/-! ### A source that is the head of another one -/

/-- A hash without collisions, and an encryption that does nothing. -/
def plainEnv : Env (List UInt8) where
  xxh32 := id
  boxEasyAfternm plain _ _ := plain
  boxOpenEasyAfternm cipher _ _ := some cipher
  nonceIncrement := id

/-- A cookie of eight equal bytes. -/
def cookieOf (b : UInt8) : Cookie := ⟨List.replicate 8 b, List.length_replicate⟩

/-- Two tenants, `a` and `b`, and the public one. -/
def demoKeys : DdBrokerKeys where
  tenants := [text "a", text "b", publicName]
  tenantkeys := [(text "hashA", ⟨text "a", cookieOf 65, []⟩),
    (text "hashB", ⟨text "b", cookieOf 66, []⟩), (text "hashP", ⟨publicName, cookieOf 80, []⟩)]
  hash := text "hashR"
  cookie := cookieOf 82
  ddboxk := []

/-- A root broker with the keys above. -/
def demoConfig : Config where
  keys := demoKeys
  nonce := []
  dealer := false
  pubSEndpoint := ∅
  subSEndpoint := ∅
  scope := [text "1", text "2", text "3"]
  scope_digits := by decide +kernel
  scope_length := rfl
  scope_fits := by decide

/-- The `CHALLOK` of a client. -/
def challokMsg (sockid : Frame) (cookie : Cookie) (hash name : CStr) : List Frame :=
  sockid :: ddMsg .challok [cookie.1, hash.bytes, name.bytes]

/-- The run: a client with a socket id of five bytes registers. -/
def headRun : List Event :=
  [.router (challokMsg [1, 2, 3, 4, 5] (cookieOf 65) (text "hashA") (text "x"))]

/-- A `PING` from the first four bytes of that socket id, with the fifth before the cookie. -/
def headPing : List Frame := [1, 2, 3, 4] :: ddMsg .ping [5 :: (cookieOf 65).1]

theorem headRun_acts : ((runEvents plainEnv (ddBrokerNew _ demoConfig) headRun).bind fun self =>
    actedFor plainEnv self headPing) = some (some
      ⟨text "x", text "a.x", text "a", cookieOf 65, [1, 2, 3, 4, 5]⟩) := by
  decide

/-- **Not every command is authenticated exactly.** -/
theorem not_exactFor : ¬ ∀ (H : Type) [DecidableEq H] (env : Env H),
    Function.Injective env.xxh32 → ∀ (cfg : Config) (es : List Event) (self : DdBroker H),
    Run env cfg es self → ∀ (msg rest : List Frame) (source cookie : Frame) (cmd : Cmd),
    routerCmd msg = some (source, cmd, cookie :: rest) → cmd.forClient →
    ExactFor env cfg es self msg source cookie := by
  intro hall
  obtain ⟨self, hself, hacts⟩ := Option.bind_eq_some_iff.mp headRun_acts
  obtain ⟨r, hr, hauth⟩ := hall _ plainEnv Function.injective_id demoConfig headRun self
    (.of_runEvents hself) headPing [] [1, 2, 3, 4] (5 :: (cookieOf 65).1) .ping
    (routerCmd_ddMsg _ _ _) rfl
  rw [hacts] at hr
  cases hr
  exact absurd (hauth _ rfl).sockid (by decide)

/-- A `PING` from the registered socket id with the cookie of its tenant is authenticated. -/
theorem exactFor_headRun : ∃ self, Run plainEnv demoConfig headRun self ∧
    ExactFor plainEnv demoConfig headRun self ([1, 2, 3, 4, 5] :: ddMsg .ping [(cookieOf 65).1])
      [1, 2, 3, 4, 5] (cookieOf 65).1 := by
  obtain ⟨self, hself, -⟩ := Option.bind_eq_some_iff.mp headRun_acts
  have hrun : Run plainEnv demoConfig headRun self := .of_runEvents hself
  refine ⟨self, hrun, (exactFor_iff Function.injective_id hrun (routerCmd_ddMsg _ _ _) rfl).mpr ?_⟩
  intro c hc hkey
  exact (append_cookie_inj hkey).1

end DoubleDecker
