import DoubleDecker.Client.Sessions
import DoubleDecker.Client.Survival

/-!
# Client/Handshake — what a registration means

    client: ADDLCL ──▸      CHALL ──▸       CHALLOK ──▸        REGOK ──▸ registered
    broker:         nonce          opened           entered

A `REGOK` follows a `CHALLOK` of the same socket, which names the client, and the broker enters it
before it answers.  So a client that is registered was entered under its own name, the cookie of its
tenant and its open socket (`registered_was_entered`), whatever else the broker and the link do.
The other way, a client that shares the keys of a tenant and whose name is free can complete a
registration from every state of a session (`registration_completes`).
-/

namespace DoubleDecker

variable {H : Type} {env : Env H}

/-! ## The client -/

section

variable {c : DdClient} {e : ClientEvent} {h : Handled}

variable (env c) in
/-- **What a client sends** for an event. -/
inductive ClientSends : ClientEvent → List Frame → Prop
  | subscribe (topic scope : CStr) : ClientSends (.subscribe topic scope)
      (ddMsg .sub [c.cookie.1, topic.bytes, (scopestr scope).bytes])
  | unsubscribe (topic scope : CStr) : ClientSends (.unsubscribe topic scope)
      (ddMsg .unsub [c.cookie.1, topic.bytes, (scopestr scope).bytes])
  | publish {topic : CStr} {plain key : Frame} (hkey : publishKey c.keys topic = some key)
      (hfits : fitsInt plain) : ClientSends (.publish topic plain)
      (ddMsg .pub [c.cookie.1, topic.bytes, [], (sealFrame env c plain key).2])
  | notify {target : CStr} {plain : Frame} (hfits : fitsInt plain) :
      ClientSends (.notify target plain) (ddMsg .send [c.cookie.1, target.bytes,
        (sealFrame env c plain (notifyKey c.keys target)).2])
  | challok (msg : List Frame) (decrypted : Frame) : ClientSends (.message msg)
      (ddMsg .challok [decrypted, c.keys.hash.bytes, c.clientName.bytes])
  | registered (msg : List Frame) (cookie : Cookie) :
      ClientSends (.message msg) (ddMsg .ping [cookie.1])
  | resubscribe (msg : List Frame) (cookie : Cookie) {item : Ddtopic}
      (hitem : item ∈ c.sublist.items) : ClientSends (.message msg) (resubMsg cookie item)
  | addlcl : ClientSends .askRegistration (ddMsg .addlcl [c.keys.hash.bytes])
  | ping (timerId : Nat) : ClientSends (.ping timerId) (ddMsg .ping [c.cookie.1])

theorem clientStep_clientSends (hs : clientStep env c e = some h) {m : List Frame}
    (hm : m ∈ h.sends) : ClientSends env c e m := by
  have hite : ∀ {p : Prop} [Decidable p] {m' : List Frame}, ClientSends env c e m' →
      m ∈ (if p then [m'] else []) → ClientSends env c e m := by
    intro p _ m' hm' hm
    split at hm
    · exact List.mem_singleton.mp hm ▸ hm'
    · cases hm
  cases e with
  | subscribe topic scope =>
    cases hs
    exact hite (.subscribe topic scope) hm
  | unsubscribe topic scope =>
    cases hs
    exact hite (.unsubscribe topic scope) hm
  | publish topic plain =>
    obtain ⟨-, rfl⟩ | ⟨key, hkey, hfits, rfl⟩ := clientStep_publish hs
    · cases hm
    · exact hite (.publish hkey hfits) hm
  | notify target plain =>
    obtain ⟨hfits, rfl⟩ := clientStep_notify hs
    exact hite (.notify hfits) hm
  | message msg =>
    rw [clientStep] at hs
    cases hmsg : dealerCmd msg with
    | none =>
      rw [sOnClientMsg_of_dealerCmd_none hmsg hs] at hm
      cases hm
    | some p =>
      obtain ⟨cmd, body⟩ := p
      rw [sOnClientMsg_of_dealerCmd hmsg] at hs
      cases onClientCmd_clientHandles hs with
      | quiet _ _ _ _ hsends =>
        rw [hsends] at hm
        cases hm
      | chall =>
        cases body with
        | nil => cases hs
        | cons encrypted rest =>
          obtain ⟨o, -, rfl⟩ := Option.map_eq_some_iff.mp hs
          cases o with
          | none => cases hm
          | some decrypted => exact List.mem_singleton.mp hm ▸ .challok msg decrypted
      | @regok _ cookie =>
        obtain rfl | hm := List.mem_cons.mp hm
        · exact .registered msg cookie
        · obtain ⟨item, hitem, rfl⟩ := List.mem_map.mp hm
          exact .resubscribe msg cookie
            (Zlistx.skipped_append_rest _ ▸ List.mem_append_right _ hitem)
      | pong => cases hm
      | subok => cases hm
  | askRegistration =>
    cases hs
    exact hite .addlcl hm
  | heartbeat =>
    cases hs
    unfold sClientHeartbeat at hm
    simp only at hm
    split at hm <;> cases hm
  | ping timerId =>
    cases hs
    exact hite (.ping timerId) hm

/-- **What a client does with a challenge**: it answers with its hash and its name. -/
theorem challok_clientStep (hs : clientStep env c e = some h) {m body : List Frame}
    (hm : m ∈ h.sends) (hcmd : dealerCmd m = some (.challok, body)) :
    ∃ f, body = [f, c.keys.hash.bytes, c.clientName.bytes] := by
  cases clientStep_clientSends hs hm with
  | challok msg decrypted =>
    rw [dealerCmd_ddMsg] at hcmd
    cases hcmd
    exact ⟨decrypted, rfl⟩
  | _ => cases (dealerCmd_ddMsg _ _).symm.trans hcmd

/-- **Only a `REGOK` registers**, under the cookie it brings; name and keys stay. -/
theorem clientStep_account (hs : clientStep env c e = some h) :
    h.self.clientName = c.clientName ∧ h.self.keys = c.keys ∧
      (h.self.state = .registered → c.state = .registered ∧ h.self.cookie = c.cookie ∨
        ∃ msg cookieFrame rest, e = .message msg ∧
          dealerCmd msg = some (.regok, cookieFrame :: rest) ∧
          readCookie cookieFrame = some h.self.cookie) := by
  cases e with
  | subscribe topic scope =>
    cases hs
    exact ⟨rfl, rfl, fun hreg => .inl ⟨hreg, rfl⟩⟩
  | unsubscribe topic scope =>
    cases hs
    exact ⟨rfl, rfl, fun hreg => .inl ⟨hreg, rfl⟩⟩
  | publish topic message =>
    obtain ⟨-, rfl⟩ | ⟨key, -, -, rfl⟩ := clientStep_publish hs <;>
      exact ⟨rfl, rfl, fun hreg => .inl ⟨hreg, rfl⟩⟩
  | notify target message =>
    obtain ⟨-, rfl⟩ := clientStep_notify hs
    exact ⟨rfl, rfl, fun hreg => .inl ⟨hreg, rfl⟩⟩
  | message msg =>
    rw [clientStep] at hs
    cases hmsg : dealerCmd msg with
    | none =>
      rw [sOnClientMsg_of_dealerCmd_none hmsg hs]
      exact ⟨rfl, rfl, fun hreg => .inl ⟨hreg, rfl⟩⟩
    | some p =>
      obtain ⟨cmd, rest⟩ := p
      rw [sOnClientMsg_of_dealerCmd hmsg] at hs
      have hobeys := onClientCmd_obeys hs
      refine ⟨hobeys.clientName, hobeys.keys, ?_⟩
      cases onClientCmd_clientHandles hs with
      | quiet hcall hregisters hpong hself hsends =>
        rw [hself]
        exact fun hreg => .inl ⟨hreg, rfl⟩
      | chall frames hself hsends =>
        rw [hself]
        exact fun hreg => .inl ⟨hreg, rfl⟩
      | regok hcookie rest => exact fun _ => .inr ⟨msg, _, rest, rfl, hmsg, hcookie⟩
      | pong body => exact fun hreg => .inl ⟨hreg, rfl⟩
      | subok topic scope rest => exact fun hreg => .inl ⟨hreg, rfl⟩
  | askRegistration =>
    cases hs
    exact ⟨rfl, rfl, fun hreg => .inl ⟨hreg, rfl⟩⟩
  | heartbeat =>
    cases hs
    unfold sClientHeartbeat
    simp only
    split
    · exact ⟨rfl, rfl, fun hreg => by cases hreg⟩
    · exact ⟨rfl, rfl, fun hreg => .inl ⟨hreg, rfl⟩⟩
  | ping =>
    cases hs
    exact ⟨rfl, rfl, fun hreg => .inl ⟨hreg, rfl⟩⟩

end

/-! ## The broker -/

variable [DecidableEq H]

section

variable {b b' : DdBroker H} {sends : List Send} {s : Frame} {m body : List Frame}

/-- The entry of a client. -/
def DdTenant.entry (ten : DdTenant) (clientName : CStr) (sockid : Frame) : LocalClient :=
  ⟨clientName, joined 255 ten.name clientName, ten.name, ten.cookie, sockid⟩

/-- **The registration of a client** is refused, or enters it and answers it. -/
theorem registerClient_eq_done {ten : DdTenant} {clientName : CStr}
    (h : registerClient env b s ten clientName = .done b' sends) :
    (b' = b ∧ sends = remoteRegFailed s ⟨CStr.ascii "local", by decide⟩) ∨
      ten.entry clientName s ∈ b'.lclCliHt.nodes ∧
        ∃ up, sends = .rsock s (ddMsg .regok [ten.cookie.1]) :: up ∧
          ∀ s', up.filterMap (Send.toSocket s') = [] := by
  unfold registerClient at h
  split at h
  · cases h
  · cases h
    exact .inl ⟨rfl, rfl⟩
  · next b₁ hins =>
    obtain ⟨-, -, -, -, rfl⟩ := insertLocalClient_eq hins
    cases h
    refine .inr ⟨?_, _, rfl, fun s' => ?_⟩
    · rw [Lfht.nodes_add]
      exact List.mem_append_right _ (List.mem_singleton_self _)
    · split
      · exact toSocket_addCliUp _ _ _ s'
      · rfl

/-- A `CHALLOK` is answered with a `REGOK` when it enters the client, or comes from a broker. -/
theorem regok_challok {source : Frame} {rest : List Frame}
    (h : sCbChallok env b source rest = .done b' sends)
    (hm : m ∈ sends.filterMap (Send.toSocket s)) (hcmd : dealerCmd m = some (.regok, body)) :
    s = source ∧ ∃ cook hash name tail, rest = cook :: hash :: name :: tail ∧
      (CStr.ofBytes hash = b.keys.hash ∨ ∃ ten, b.keys.tenant (CStr.ofBytes hash) = some ten ∧
        body = [ten.cookie.1] ∧ ten.entry (CStr.ofBytes name) s ∈ b'.lclCliHt.nodes) := by
  have hanswer := @answersOnce_challok _ env _ b source rest s
  rw [h] at hanswer
  have hsource : source = s := by
    by_contra hne
    rw [if_neg hne] at hanswer
    exact List.ne_nil_of_mem hm (List.eq_nil_of_length_eq_zero (Nat.le_zero.mp hanswer))
  subst hsource
  refine ⟨rfl, ?_⟩
  rcases rest with _ | ⟨cook, _ | ⟨hash, _ | ⟨name, tail⟩⟩⟩
  · cases h
  · cases h
    cases hm
  · cases h
    cases hm
  · refine ⟨cook, hash, name, tail, rfl, ?_⟩
    by_cases hhash : CStr.ofBytes hash = b.keys.hash
    · exact .inl hhash
    · right
      simp only [sCbChallok, if_neg hhash] at h
      split at h
      · cases h
        cases hm
      · next ten hten =>
        split at h
        · cases h
        · split at h
          · cases h
            cases hm
          · split at h
            · cases h
              cases hm
            · obtain ⟨-, rfl⟩ | ⟨hentered, up, rfl, hup⟩ := registerClient_eq_done h
              · simp only [remoteRegFailed, List.filterMap_cons, Send.toSocket, if_true,
                  List.filterMap_nil, List.mem_singleton] at hm
                rw [hm, dealerCmd_ddMsg] at hcmd
                cases hcmd
              · rw [List.filterMap_cons, hup] at hm
                simp only [Send.toSocket, if_true, List.mem_singleton] at hm
                rw [hm, dealerCmd_ddMsg] at hcmd
                cases hcmd
                exact ⟨ten, hten, rfl, hentered⟩

/-- **A `REGOK` to a socket** answers a `CHALLOK` of this socket, by which the client was entered or
which came from a broker. -/
theorem regok_step {e : Event} (h : step env b e = .done b' sends)
    (hm : m ∈ sends.filterMap (Send.toSocket s)) (hcmd : dealerCmd m = some (.regok, body)) :
    ∃ msg cook hash name tail, e = .router (s :: msg) ∧
      dealerCmd msg = some (.challok, cook :: hash :: name :: tail) ∧
      (CStr.ofBytes hash = b.keys.hash ∨ ∃ ten, b.keys.tenant (CStr.ofBytes hash) = some ten ∧
        body = [ten.cookie.1] ∧ ten.entry (CStr.ofBytes name) s ∈ b'.lclCliHt.nodes) := by
  have hgrants : grants m = true := by simp [grants, hasCmd, hcmd]
  have hpos : 0 < (sends.filterMap (Send.toSocket s)).countP grants :=
    List.countP_pos_iff.mpr ⟨m, hm, hgrants⟩
  have hallowed := Nat.lt_of_lt_of_le hpos (countP_grants_step h s)
  have hrouter : ∃ msg, e = .router (s :: msg) ∧ asks msg := by
    unfold Event.allowance at hallowed
    split at hallowed
    · next source msg =>
      split at hallowed
      · next hasks => exact ⟨msg, by rw [hasks.1], hasks.2⟩
      · exact absurd hallowed (Nat.lt_irrefl 0)
    · exact absurd hallowed (Nat.lt_irrefl 0)
  obtain ⟨msg, rfl, hasks⟩ := hrouter
  obtain ⟨⟨cmd, rest⟩, hmsg, hask⟩ := (Option.any_eq_true _ _).mp hasks
  have hroute : routerCmd (s :: msg) = some (s, cmd, rest) := by
    rw [routerCmd_cons, hmsg]
    rfl
  have hstep := (@step_router _ _ env b _ _ _ _ hroute).symm.trans h
  have hsays : ∀ cs, (onRouterCmd env b s cmd rest).Says cs → Cmd.regok ∈ cs := by
    intro cs hcs
    obtain ⟨x, hx, hxm⟩ := List.mem_filterMap.mp hm
    refine hcs x (by rw [hstep]; exact hx) .regok ?_
    cases x with
    | rsock dest m' =>
      simp only [Send.toSocket] at hxm
      split at hxm
      · cases hxm
        exact (cmd_of_dealerCmd hcmd _).1
      · cases hxm
    | _ => cases hxm
  have hans := hsays _ (says_router b s cmd rest)
  have hchallok : cmd = .challok := by
    cases cmd <;> first | rfl | (simp [Cmd.answers] at hans)
  subst hchallok
  have hstep : sCbChallok env b s rest = .done b' sends := by cases rest <;> exact hstep
  obtain ⟨-, cook, hash, name, tail, rfl, hentered⟩ := regok_challok hstep hm hcmd
  exact ⟨msg, cook, hash, name, tail, rfl, hmsg, hentered⟩

end

/-! ## Every run of a session -/

namespace Session

/-- **What a session vouches for** — the `CHALLOK`s on their way name the client, and a `REGOK` on
its way or taken is about an entry of the open socket with the property `P`. -/
structure Vouches (P : LocalClient → Prop) (brokerKeys : DdBrokerKeys) (clientName : CStr)
    (keys : DdKeys) (n : Session H) : Prop where
  ownName : n.client.clientName = clientName
  ownKeys : n.client.keys = keys
  theirKeys : n.broker.keys = brokerKeys
  up : ∀ p ∈ n.up, ∀ body, dealerCmd p.2 = some (.challok, body) →
    ∃ f, body = [f, keys.hash.bytes, clientName.bytes]
  down : ∀ m ∈ n.down, ∀ body, dealerCmd m = some (.regok, body) →
    ∃ ten, brokerKeys.tenant keys.hash = some ten ∧ body = [ten.cookie.1] ∧
      P (ten.entry clientName n.sockid)
  registered : n.client.state = .registered →
    ∃ ten, brokerKeys.tenant keys.hash = some ten ∧ n.client.cookie = ten.cookie ∧
      P (ten.entry clientName n.sockid)

variable {P P' : LocalClient → Prop} {brokerKeys : DdBrokerKeys} {clientName : CStr}
  {keys : DdKeys} {n n' : Session H}

omit [DecidableEq H] in
theorem Vouches.mono (h : n.Vouches P brokerKeys clientName keys) (hP : ∀ c, P c → P' c) :
    n.Vouches P' brokerKeys clientName keys where
  ownName := h.ownName
  ownKeys := h.ownKeys
  theirKeys := h.theirKeys
  up := h.up
  down m hm body hcmd := by
    obtain ⟨ten, hten, hbody, hentry⟩ := h.down m hm body hcmd
    exact ⟨ten, hten, hbody, hP _ hentry⟩
  registered hreg := by
    obtain ⟨ten, hten, hcookie, hentry⟩ := h.registered hreg
    exact ⟨ten, hten, hcookie, hP _ hentry⟩

omit [DecidableEq H] in
/-- **The client acts**: a `REGOK` it takes is one that was on its way. -/
theorem Vouches.of_clientActs (h : n.Vouches P brokerKeys clientName keys) {e : ClientEvent}
    (hact : n.clientActs env e = some n')
    (hregok : ∀ m body, e = .message m → dealerCmd m = some (.regok, body) →
      ∃ ten, brokerKeys.tenant keys.hash = some ten ∧ body = [ten.cookie.1] ∧
        P (ten.entry clientName n.sockid)) :
    n'.Vouches P brokerKeys clientName keys := by
  obtain ⟨handled, hs, rfl⟩ := Session.of_clientActs hact
  obtain ⟨hname, hkeys, hreg⟩ := clientStep_account hs
  refine ⟨hname.trans h.ownName, hkeys.trans h.ownKeys, h.theirKeys, fun p hp body hcmd => ?_,
    h.down, fun hstate => ?_⟩
  · obtain hp | hp := List.mem_append.mp hp
    · exact h.up p hp body hcmd
    · obtain ⟨m, hm, rfl⟩ := List.mem_map.mp hp
      obtain ⟨f, hbody⟩ := challok_clientStep hs hm hcmd
      exact ⟨f, by rw [hbody, h.ownKeys, h.ownName]⟩
  · obtain ⟨hold, hcookie⟩ | ⟨m, cookieFrame, rest, rfl, hcmd, hcookie⟩ := hreg hstate
    · obtain ⟨ten, hten, hown, hentry⟩ := h.registered hold
      exact ⟨ten, hten, hcookie.trans hown, hentry⟩
    · obtain ⟨ten, hten, hbody, hentry⟩ := hregok m _ rfl hcmd
      cases hbody
      rw [readCookie_cookie] at hcookie
      exact ⟨ten, hten, (Option.some.inj hcookie).symm, hentry⟩

/-- **The broker acts**: a `REGOK` it sends is about a client it has. -/
theorem Vouches.of_brokerActs (h : n.Vouches P brokerKeys clientName keys) {e : Event}
    (hact : n.brokerActs env e = some n') (hhash : keys.hash ≠ brokerKeys.hash)
    (hchallok : ∀ msg body, e = .router (n.sockid :: msg) → dealerCmd msg = some (.challok, body) →
      ∃ f, body = [f, keys.hash.bytes, clientName.bytes])
    (hP : ∀ c ∈ n'.broker.lclCliHt.nodes, P c) : n'.Vouches P brokerKeys clientName keys := by
  obtain ⟨b, sends, hs, rfl⟩ := Session.of_brokerActs hact
  refine ⟨h.ownName, h.ownKeys, (step_frame hs).keys.trans h.theirKeys, h.up,
    fun m hm body hcmd => ?_, h.registered⟩
  obtain hm | hm := List.mem_append.mp hm
  · exact h.down m hm body hcmd
  · obtain ⟨msg, cook, hash, name, tail, rfl, hmsg, hentered⟩ := regok_step hs hm hcmd
    obtain ⟨f, hbody⟩ := hchallok msg _ rfl hmsg
    cases hbody
    rw [CStr.ofBytes_bytes, CStr.ofBytes_bytes, h.theirKeys] at hentered
    obtain hown | ⟨ten, hten, hbody, hentry⟩ := hentered
    · exact absurd hown hhash
    · exact ⟨ten, hten, hbody, hP _ hentry⟩

/-- **Every step keeps what the session vouches for**, as long as all that is entered is vouched
for. -/
theorem Vouches.act (h : n.Vouches P brokerKeys clientName keys) (hok : n.Ok)
    (hhash : keys.hash ≠ brokerKeys.hash) {e : SessionEvent} (hact : n.act env e = some n')
    (hP : ∀ c ∈ n'.broker.lclCliHt.nodes, P c) : n'.Vouches P brokerKeys clientName keys := by
  cases hok.moves hact with
  | @askRegistration _ sockid _ hmem hnew hact =>
    have h₁ : Vouches P brokerKeys clientName keys
        { n with sockid, used := sockid :: n.used, down := [] } :=
      ⟨h.ownName, h.ownKeys, h.theirKeys, h.up, fun m hm => absurd hm List.not_mem_nil,
        fun hreg => by cases (hok.fits.unreg_of_mem hmem).symm.trans hreg⟩
    exact h₁.of_clientActs hact fun m body he => by cases he
  | heartbeat hmem hact => exact h.of_clientActs hact fun m body he => by cases he
  | ping hmem hact => exact h.of_clientActs hact fun m body he => by cases he
  | call hcall hact =>
    refine h.of_clientActs hact fun m body he => ?_
    rw [he] at hcall
    cases hcall
  | @toClient m down _ hdown hact =>
    have h₁ : Vouches P brokerKeys clientName keys
        { n with down, received := n.received ++ [(n.sockid, m)] } :=
      ⟨h.ownName, h.ownKeys, h.theirKeys, h.up,
        fun m' hm' => h.down m' (hdown ▸ List.mem_cons_of_mem _ hm'), h.registered⟩
    refine h₁.of_clientActs hact fun m' body he hcmd => ?_
    cases he
    exact h.down m (hdown ▸ List.mem_cons_self) body hcmd
  | @toBroker i source m _ hi hact =>
    have h₁ : Vouches P brokerKeys clientName keys { n with up := n.up.eraseIdx i } :=
      ⟨h.ownName, h.ownKeys, h.theirKeys, fun p hp => h.up p (List.mem_of_mem_eraseIdx hp), h.down,
        h.registered⟩
    refine h₁.of_brokerActs hact hhash (fun msg body he hcmd => ?_) hP
    cases he
    exact h.up _ (List.mem_of_getElem? hi) body hcmd
  | lose i =>
    exact ⟨h.ownName, h.ownKeys, h.theirKeys, fun p hp => h.up p (List.mem_of_mem_eraseIdx hp),
      h.down, h.registered⟩
  | broker hen hother hact =>
    refine h.of_brokerActs hact hhash (fun msg body he hcmd => ?_) hP
    exact absurd (by rw [he]; rfl) (hother n.sockid hok.known.sockid)

/-- Some events, and then some more. -/
theorem run_append (n : Session H) (es es' : List SessionEvent) :
    n.run env (es ++ es') = (n.run env es).bind fun n => n.run env es' := by
  induction es generalizing n with
  | nil => rfl
  | cons e es ih =>
    rw [List.cons_append, run, run, Option.bind_assoc]
    exact congrArg _ (funext ih)

omit [DecidableEq H] in
/-- At the start there is nothing to vouch for. -/
theorem vouches_start (broker : DdBroker H) (hkeys : broker.keys = brokerKeys) (heartbeatLoop : Nat)
    (clientName : CStr) (keys : DdKeys) (cookie : Cookie) (nonce sockid : Frame)
    (P : LocalClient → Prop) :
    (start (ddNew clientName keys cookie nonce heartbeatLoop) broker sockid).Vouches P brokerKeys
      clientName keys :=
  ⟨rfl, rfl, hkeys, fun _ hp => absurd hp List.not_mem_nil, fun _ hm => absurd hm List.not_mem_nil,
    fun hreg => by cases hreg⟩

/-- The client was in the table of the broker at some time of the run. -/
def WasEntered (env : Env H) (n₀ : Session H) (es : List SessionEvent) (c : LocalClient) : Prop :=
  ∃ es₁ es₂ n₁, es = es₁ ++ es₂ ∧ n₀.run env es₁ = some n₁ ∧ c ∈ n₁.broker.lclCliHt.nodes

theorem Vouches.run {n₀ : Session H} (h : ∀ P, n₀.Vouches P brokerKeys clientName keys)
    (hok : n₀.Ok) (hhash : keys.hash ≠ brokerKeys.hash) {es : List SessionEvent}
    (hrun : n₀.run env es = some n) :
    n.Vouches (WasEntered env n₀ es) brokerKeys clientName keys := by
  induction es using List.reverseRecOn generalizing n with
  | nil =>
    cases hrun
    exact h _
  | append_singleton es e ih =>
    obtain ⟨n₁, hrun₁, hact⟩ := Option.bind_eq_some_iff.mp ((run_append _ _ _).symm.trans hrun)
    obtain ⟨n₂, hact, hlast⟩ := Option.bind_eq_some_iff.mp hact
    cases hlast
    have hmono : ∀ c, WasEntered env n₀ es c → WasEntered env n₀ (es ++ [e]) c := by
      rintro c ⟨es₁, es₂, n₂, rfl, hrun₂, hmem⟩
      exact ⟨es₁, es₂ ++ [e], n₂, List.append_assoc _ _ _, hrun₂, hmem⟩
    exact ((ih hrun₁).mono hmono).act (hok.run hrun₁) hhash hact fun c hc =>
      ⟨es ++ [e], [], n, (List.append_nil _).symm, hrun, hc⟩

end Session

/-- **A client that is registered was entered** — under its own name, with the tenant of its hash,
the cookie it now uses and its open socket, at some time of the run of the session. -/
theorem registered_was_entered (cfg : Config) (broker : DdBroker H)
    (hbroker : Reachable env cfg broker) (clientName : CStr) (keys : DdKeys) (cookie : Cookie)
    (nonce sockid : Frame) (heartbeatLoop : Nat) (hhash : keys.hash ≠ cfg.keys.hash)
    (es : List SessionEvent) (n : Session H)
    (hrun : (Session.start (ddNew clientName keys cookie nonce heartbeatLoop) broker sockid).run env
      es = some n) (hreg : n.client.state = .registered) :
    ∃ ten, cfg.keys.tenant keys.hash = some ten ∧ n.client.cookie = ten.cookie ∧
      Session.WasEntered env
        (.start (ddNew clientName keys cookie nonce heartbeatLoop) broker sockid) es
        (ten.entry clientName n.sockid) := by
  have hkeys : broker.keys = cfg.keys := hbroker.choose_spec.keys
  have hvouches := Session.Vouches.run (Session.vouches_start _ hkeys _ _ _ _ _ _)
    (Session.ok_start _ _ _ _ _ _ _) hhash hrun
  exact hvouches.registered hreg

/-- A client that was registered twice was entered. -/
theorem registered_was_entered_return : ∃ n : Session (List UInt8),
    (Session.start newcomer challenger [0]).run plainEnv lapseAndReturn = some n ∧
      n.client.state = .registered ∧ ∃ ten, demoKeys.tenant (text "hashA") = some ten ∧
        n.client.cookie = ten.cookie ∧ Session.WasEntered plainEnv
          (.start newcomer challenger [0]) lapseAndReturn (ten.entry (text "x") n.sockid) := by
  obtain ⟨n, hn, hend⟩ := Option.map_eq_some_iff.mp lapseAndReturn_run
  simp only [Prod.mk.injEq] at hend
  have hstate := of_decide_eq_true hend.2.1
  exact ⟨n, hn, hstate, registered_was_entered _ challenger ⟨[], .init⟩ _ _ _ _ _ _ (by decide)
    lapseAndReturn n hn hstate⟩

/-! ## A registration, message by message -/

section

variable {b : DdBroker H} {ten : DdTenant} {clientName : CStr} {s : Frame}

omit [DecidableEq H] in
/-- A nonce and what was encrypted under it are opened again. -/
theorem openFrame_sealed
    (hopen : ∀ p n k, env.boxOpenEasyAfternm (env.boxEasyAfternm p n k) n k = some p)
    {nonce plain key : Frame} (hnonce : nonce.length = nonceBytes)
    (hlen : (env.boxEasyAfternm plain nonce key).length < 2 ^ 32) :
    openFrame env (nonce ++ env.boxEasyAfternm plain nonce key) key = some (some plain) := by
  have hle : nonceBytes ≤ (nonce ++ env.boxEasyAfternm plain nonce key).length := by
    rw [List.length_append, hnonce]
    exact Nat.le_add_right _ _
  have hcipher : (nonce ++ env.boxEasyAfternm plain nonce key).length - nonceBytes =
      (env.boxEasyAfternm plain nonce key).length := by
    rw [List.length_append, hnonce, Nat.add_sub_cancel_left]
  rw [openFrame, if_neg (Nat.not_lt.mpr hle), hcipher, Nat.mod_eq_of_lt hlen,
    List.drop_left' hnonce, List.take_left' hnonce, List.take_length, hopen]

/-- No client of the broker or below it has this full name. -/
def DdBroker.Free {H : Type} (b : DdBroker H) (prefixName : CStr) : Prop :=
  (∀ c ∈ b.lclCliHt.nodes, c.prefixName ≠ prefixName) ∧
    ∀ d ∈ b.distCliHt.nodes, d.name ≠ prefixName

variable (env b ten clientName s) in
/-- **What decides about a client** — whether its full name is free, if no other has its socket. -/
theorem insertLocalClient_isSome (hinj : Function.Injective env.xxh32) (hok : TablesOk env b)
    (hfits : (ten.name ++ dotStr ++ clientName).length ≤ 255)
    (hsock : ∀ c ∈ b.lclCliHt.nodes, c.sockid ≠ s) :
    ∃ r, insertLocalClient env b s ten clientName = some r ∧
      (r.isSome ↔ b.Free (ten.name ++ dotStr ++ clientName)) := by
  have hfull : joined 255 ten.name clientName = ten.name ++ dotStr ++ clientName :=
    CStr.truncate_of_le hfits
  have hlocal : hashtableHasLocalNode env b s ten.cookie.1 = some none :=
    hok.hasLocal_of_not_mem hinj fun c hc hkey => hsock c hc (append_cookie_inj hkey).1
  have hdist : (hashtableHasDistNode env b (ten.name ++ dotStr ++ clientName)).isSome ↔
      ∃ d ∈ b.distCliHt.nodes, d.name = ten.name ++ dotStr ++ clientName := by
    rw [hok.hasDist hinj, List.find?_isSome]
    simp only [decide_eq_true_eq]
  have hrev : (hashtableHasRevLocalNode env b (ten.name ++ dotStr ++ clientName)).isSome ↔
      ∃ c ∈ b.lclCliHt.nodes, c.prefixName = ten.name ++ dotStr ++ clientName := by
    rw [hok.hasRev hinj, List.find?_isSome]
    simp only [decide_eq_true_eq, hok.same]
  unfold insertLocalClient
  simp only [hfull, hlocal, if_neg (Nat.not_lt.mpr hfits)]
  by_cases hd : ∃ d ∈ b.distCliHt.nodes, d.name = ten.name ++ dotStr ++ clientName
  · refine ⟨none, by rw [if_pos (hdist.mpr hd)], fun h => absurd h Bool.false_ne_true,
      fun hfree => ?_⟩
    obtain ⟨d, hd, hname⟩ := hd
    exact absurd hname (hfree.2 d hd)
  · rw [if_neg fun h => hd (hdist.mp h)]
    by_cases hc : ∃ c ∈ b.lclCliHt.nodes, c.prefixName = ten.name ++ dotStr ++ clientName
    · refine ⟨none, by rw [if_pos (hrev.mpr hc)], fun h => absurd h Bool.false_ne_true,
        fun hfree => ?_⟩
      obtain ⟨c, hc, hname⟩ := hc
      exact absurd hname (hfree.1 c hc)
    · refine ⟨_, by rw [if_neg fun h => hc (hrev.mp h)], fun _ => ⟨fun c hmem hname => ?_,
        fun d hmem hname => ?_⟩, fun _ => rfl⟩
      · exact hc ⟨c, hmem, hname⟩
      · exact hd ⟨d, hmem, hname⟩

variable (env b ten clientName s) in
/-- **The broker decides about a client** it challenged: a `REGOK`, or an error. -/
theorem registerClient_decides (hinj : Function.Injective env.xxh32) (hok : TablesOk env b)
    (hfits : (ten.name ++ dotStr ++ clientName).length ≤ 255)
    (hsock : ∀ c ∈ b.lclCliHt.nodes, c.sockid ≠ s) :
    ∃ b' sends, registerClient env b s ten clientName = .done b' sends ∧
      (b.Free (ten.name ++ dotStr ++ clientName) ∧ ten.entry clientName s ∈ b'.lclCliHt.nodes ∧
          sends.filterMap (Send.toSocket s) = [ddMsg .regok [ten.cookie.1]] ∨
        ¬ b.Free (ten.name ++ dotStr ++ clientName) ∧ sends.filterMap (Send.toSocket s) =
          [ddMsg .error [le32 ddErrorRegfail, CStr.ascii "local"]]) := by
  obtain ⟨r, hr, hfree⟩ := insertLocalClient_isSome env b ten clientName s hinj hok hfits hsock
  cases r with
  | none =>
    refine ⟨b, remoteRegFailed s ⟨CStr.ascii "local", by decide⟩, by rw [registerClient, hr],
      .inr ⟨fun h => absurd (hfree.mpr h) Bool.false_ne_true, ?_⟩⟩
    simp [remoteRegFailed, Send.toSocket]
  | some b₁ =>
    have hdone : ∃ b' sends, registerClient env b s ten clientName = .done b' sends ∧
        sends ≠ remoteRegFailed s ⟨CStr.ascii "local", by decide⟩ := by
      rw [registerClient, hr]
      refine ⟨_, _, rfl, fun h => ?_⟩
      have hcmd := congrArg (fun sends => (sends.head?.bind Send.cmd)) h
      simp [remoteRegFailed] at hcmd
    obtain ⟨b', sends, hdone, hne⟩ := hdone
    obtain ⟨-, hsends⟩ | ⟨hentered, up, rfl, hup⟩ := registerClient_eq_done hdone
    · exact absurd hsends hne
    · refine ⟨b', _, hdone, .inl ⟨hfree.mp rfl, hentered, ?_⟩⟩
      rw [List.filterMap_cons, hup]
      simp [Send.toSocket]

/-- **A client that asks is challenged** with the cookie of its tenant. -/
theorem step_addlcl {hash : CStr} (hten : b.keys.tenant hash = some ten) :
    step env b (.router (s :: ddMsg .addlcl [hash.bytes])) =
      .done { b with nonce := env.nonceIncrement b.nonce } [.rsock s (ddMsg .chall
        [env.nonceIncrement b.nonce ++ env.boxEasyAfternm ten.cookie.1 (env.nonceIncrement b.nonce)
          ten.boxk])] := by
  rw [step_router (routerCmd_ddMsg _ _ _)]
  simp only [onRouterCmd, sCbAddlcl, zmsgPopstr, CStr.ofBytes_bytes, hten]

/-- **A client that opened its challenge** is registered, or refused. -/
theorem step_challok_client {hash : CStr} (hten : b.keys.tenant hash = some ten)
    (hhash : hash ≠ b.keys.hash) (hpublic : clientName ≠ publicName) :
    step env b (.router (s :: ddMsg .challok [ten.cookie.1, hash.bytes, clientName.bytes])) =
      registerClient env b s ten clientName := by
  rw [step_router (routerCmd_ddMsg _ _ _)]
  simp only [onRouterCmd, sCbChallok, CStr.ofBytes_bytes, if_neg hhash, hten, readCookie_cookie,
    ne_eq, not_true_eq_false, if_false, if_neg hpublic]

omit [DecidableEq H] in
theorem clientStep_ddMsg (c : DdClient) (cmd : Cmd) (body : List Frame) :
    clientStep env c (.message (ddMsg cmd body)) =
      onClientCmd env { c with timeout := 0 } cmd body :=
  sOnClientMsg_of_dealerCmd (dealerCmd_ddMsg cmd body)

omit [DecidableEq H] in
/-- **A client that opens its challenge** returns what was in it. -/
theorem clientStep_chall {c : DdClient} {encrypted decrypted : Frame}
    (h : openFrame env encrypted c.keys.ddboxk = some (some decrypted)) :
    clientStep env c (.message (ddMsg .chall [encrypted])) = some
      { self := { c with timeout := 0 }
        sends := [ddMsg .challok [decrypted, c.keys.hash.bytes, c.clientName.bytes]]
        lengths := [enclen encrypted, cipherLength encrypted, plainLength encrypted] } := by
  rw [clientStep_ddMsg, onClientCmd, cbChall, h, Option.map_some]

omit [DecidableEq H] in
/-- **A `REGOK` registers.** -/
theorem clientStep_regok (c : DdClient) (cookie : Cookie) :
    clientStep env c (.message (ddMsg .regok [cookie.1])) = some
      { self := { c with
          timeout := 0, cookie, sublist := (sublistResubscribe c.sublist cookie).1
          state := .registered, loop := (c.loop.timer .sHeartbeat).timerEnd c.registrationLoop
          heartbeatLoop := c.loop.nextTimerId }
        sends := ddMsg .ping [cookie.1] :: (sublistResubscribe c.sublist cookie).2
        calls := [.onReg] } := by
  rw [clientStep_ddMsg, onClientCmd, cbRegok, readCookie_cookie, Option.map_some]

omit [DecidableEq H] in
/-- **A client that is refused stays as it is.** -/
theorem clientStep_refused (c : DdClient) :
    clientStep env c (.message (ddMsg .error [le32 ddErrorRegfail, CStr.ascii "local"])) = some
      { self := { c with timeout := 0 }
        calls := [.onError ddErrorRegfail (CStr.ofBytes (CStr.ascii "local"))] } := by
  have hcode : readU32 (le32 ddErrorRegfail) = some ddErrorRegfail := by decide
  rw [clientStep_ddMsg, onClientCmd, cbError, hcode, Option.map_some]

end

/-- What was appended last goes. -/
theorem eraseIdx_concat {α : Type} (l : List α) (a : α) : (l ++ [a]).eraseIdx l.length = l := by
  rw [List.eraseIdx_append_of_length_le (Nat.le_refl _), Nat.sub_self, List.eraseIdx_cons_zero,
    List.append_nil]

namespace Session

/-- Where a session stands. -/
structure Stands {H : Type} (n : Session H) (sockid : Frame) (c : DdClient) (b : DdBroker H)
    (upward : List (Frame × List Frame)) (downward : List (List Frame)) : Prop where
  sockid : n.sockid = sockid
  client : n.client = c
  broker : n.broker = b
  up : n.up = upward
  down : n.down = downward

variable {n : Session H} {s : Frame} {c : DdClient} {b b' : DdBroker H}
  {up : List (Frame × List Frame)} {m : List Frame} {down : List (List Frame)}

variable (env) in
/-- **It asks**, over a socket that was not used. -/
theorem Ok.asks (hok : n.Ok) (hunreg : n.client.state = .unreg) (hnew : s ∉ n.used) :
    ∃ n', n.act env (.fire (n.client.registrationLoop, .sAskRegistration) s) = some n' ∧
      n'.Stands s n.client n.broker (n.up ++ [(s, ddMsg .addlcl [n.client.keys.hash.bytes])])
        [] := by
  have hmem : (n.client.registrationLoop, TimerFn.sAskRegistration) ∈ n.client.loop.timers := by
    obtain ⟨pings, hperm⟩ := hok.fits
    rw [DdClient.loopId, hunreg] at hperm
    exact hperm.mem_iff.mpr List.mem_cons_self
  have hact : n.act env (.fire (n.client.registrationLoop, .sAskRegistration) s) =
      { n with sockid := s, used := s :: n.used, down := [] }.clientActs env .askRegistration := by
    simp only [Session.act, if_pos hmem, if_pos hunreg, if_neg hnew]
  refine ⟨_, hact, rfl, rfl, rfl, ?_, rfl⟩
  simp only [sAskRegistration, hunreg, if_true, List.map_cons, List.map_nil]

/-- **The broker takes** the message sent last, the first of its socket. -/
theorem Stands.toBroker (h : n.Stands s c b (up ++ [(s, m)]) down) (hfirst : ∀ p ∈ up, p.1 ≠ s)
    {sends : List Send} (hs : step env b (.router (s :: m)) = .done b' sends) :
    ∃ n', n.act env (.toBroker up.length) = some n' ∧
      n'.Stands s c b' up (down ++ sends.filterMap (Send.toSocket s)) := by
  obtain ⟨rfl, rfl, rfl, hup, rfl⟩ := h
  have hget : n.up[up.length]? = some (n.sockid, m) := by rw [hup, List.getElem?_concat_length]
  have hany : ¬ (n.up.take up.length).any fun p => p.1 = n.sockid := by
    rw [hup, List.take_left' rfl, List.any_eq_true]
    rintro ⟨p, hp, heq⟩
    exact hfirst p hp (of_decide_eq_true heq)
  have herase : n.up.eraseIdx up.length = up := by rw [hup, eraseIdx_concat]
  have hact : n.act env (.toBroker up.length) = some { n with
      up := n.up.eraseIdx up.length
      broker := b'
      down := n.down ++ sends.filterMap (Send.toSocket n.sockid) } := by
    simp only [Session.act, hget, if_neg hany, brokerActs, hs]
  exact ⟨_, hact, rfl, rfl, rfl, herase, rfl⟩

/-- **The client takes** the first message of its socket. -/
theorem Stands.toClient (h : n.Stands s c b up (m :: down)) {handled : Handled}
    (hs : clientStep env c (.message m) = some handled) :
    ∃ n', n.act env .toClient = some n' ∧
      n'.Stands s handled.self b (up ++ handled.sends.map fun m => (s, m)) down := by
  obtain ⟨rfl, rfl, rfl, rfl, hdown⟩ := h
  have hact : n.act env .toClient = some { n with
      down
      received := n.received ++ [(n.sockid, m)]
      client := handled.self
      up := n.up ++ handled.sends.map fun m => (n.sockid, m) } := by
    simp only [Session.act, hdown, clientActs, hs, Option.map_some]
  exact ⟨_, hact, rfl, rfl, rfl, rfl, rfl⟩

/-- **The five events of a registration** over a new socket. -/
def registration {H : Type} (n : Session H) (s : Frame) : List SessionEvent :=
  [.fire (n.client.registrationLoop, .sAskRegistration) s, .toBroker n.up.length, .toClient,
    .toBroker n.up.length, .toClient]

end Session

/-- **A registration completes** — from every state of a session, over a socket no other client has,
the five events of a registration can happen.  They register the client, under the cookie of its
tenant, just when its full name is free. -/
theorem registration_completes (hinj : Function.Injective env.xxh32)
    (hopen : ∀ p n k, env.boxOpenEasyAfternm (env.boxEasyAfternm p n k) n k = some p)
    (henc : ∀ p n k, (env.boxEasyAfternm p n k).length = p.length + macBytes)
    (hinc : ∀ n, (env.nonceIncrement n).length = n.length) (cfg : Config)
    (hnonce : cfg.nonce.length = nonceBytes) (broker : DdBroker H)
    (hbroker : Reachable env cfg broker) (clientName : CStr) (keys : DdKeys) (cookie : Cookie)
    (nonce sockid : Frame) (heartbeatLoop : Nat) (ten : DdTenant)
    (hten : cfg.keys.tenant keys.hash = some ten) (hhash : keys.hash ≠ cfg.keys.hash)
    (hboxk : keys.ddboxk = ten.boxk) (hpublic : clientName ≠ publicName)
    (hfits : (ten.name ++ dotStr ++ clientName).length ≤ 255) (es : List SessionEvent)
    (n : Session H)
    (hrun : (Session.start (ddNew clientName keys cookie nonce heartbeatLoop) broker sockid).run env
      es = some n) (hunreg : n.client.state = .unreg) (s : Frame) (hnew : s ∉ n.used)
    (hsock : ∀ c ∈ n.broker.lclCliHt.nodes, c.sockid ≠ s) :
    ∃ n', n.run env (n.registration s) = some n' ∧
      (n'.client.state = .registered ↔ n.broker.Free (ten.name ++ dotStr ++ clientName)) ∧
      (n'.client.state = .registered →
        n'.client.cookie = ten.cookie ∧ ten.entry clientName s ∈ n'.broker.lclCliHt.nodes) := by
  have hstart := Session.ok_start heartbeatLoop broker clientName keys cookie nonce sockid
  have hkeys : broker.keys = cfg.keys := hbroker.choose_spec.keys
  have hok := hstart.run hrun
  have hown := Session.Vouches.run (Session.vouches_start _ hkeys _ _ _ _ _ _) hstart hhash hrun
  have hclient : clientRun env (ddNew clientName keys cookie nonce heartbeatLoop) [] = some _ := rfl
  have hreach : Reachable env cfg n.broker := (hstart.parties hclient hbroker hrun).2
  have htables := hreach.tablesOk hinj
  have hfirst : ∀ p ∈ n.up, p.1 ≠ s := fun p hp heq => hnew (heq ▸ hok.known.up p hp)
  have htenant : n.broker.keys.tenant n.client.keys.hash = some ten := by
    rw [hown.theirKeys, hown.ownKeys, hten]
  have hother : n.client.keys.hash ≠ n.broker.keys.hash := by rwa [hown.ownKeys, hown.theirKeys]
  -- the nonce of the challenge and what is sealed under it
  set sent := env.nonceIncrement n.broker.nonce with hsent
  have hsentLength : sent.length = nonceBytes := by
    rw [hsent, hinc, hreach.length_nonce hinc, hnonce]
  have hopened : openFrame env (sent ++ env.boxEasyAfternm ten.cookie.1 sent ten.boxk)
      n.client.keys.ddboxk = some (some ten.cookie.1) := by
    rw [hown.ownKeys, hboxk]
    refine openFrame_sealed hopen hsentLength ?_
    rw [henc, ten.cookie.2]
    decide
  obtain ⟨n₁, hact₁, h₁⟩ := hok.asks env hunreg hnew
  obtain ⟨n₂, hact₂, h₂⟩ := h₁.toBroker hfirst (step_addlcl htenant)
  simp only [List.nil_append, List.filterMap_cons, Send.toSocket, if_true, List.filterMap_nil] at h₂
  obtain ⟨n₃, hact₃, h₃⟩ := h₂.toClient (clientStep_chall hopened)
  rw [hown.ownName] at h₃
  obtain ⟨b, sends, hdone, hdecides⟩ := registerClient_decides env
    { n.broker with nonce := sent } ten clientName s hinj { htables with } hfits hsock
  obtain ⟨n₄, hact₄, h₄⟩ := h₃.toBroker hfirst
    ((step_challok_client (b := { n.broker with nonce := sent }) htenant hother hpublic).trans
      hdone)
  have hrun₅ : ∀ {n₅}, n₄.act env .toClient = some n₅ → n.run env (n.registration s) = some n₅ := by
    intro n₅ hact₅
    simp only [Session.registration, Session.run, hact₁, hact₂, hact₃, hact₄, hact₅,
      Option.bind_some]
  obtain ⟨hfree, hentered, hsends⟩ | ⟨hfree, hsends⟩ := hdecides
  · rw [hsends] at h₄
    obtain ⟨n₅, hact₅, h₅⟩ := h₄.toClient (clientStep_regok _ ten.cookie)
    refine ⟨n₅, hrun₅ hact₅, ?_⟩
    rw [h₅.client, h₅.broker]
    exact ⟨iff_of_true rfl hfree, fun _ => ⟨rfl, hentered⟩⟩
  · rw [hsends] at h₄
    obtain ⟨n₅, hact₅, h₅⟩ := h₄.toClient (clientStep_refused _)
    have hstate : n₅.client.state ≠ .registered := by
      rw [h₅.client]
      exact fun hreg => by cases hunreg.symm.trans hreg
    exact ⟨n₅, hrun₅ hact₅, iff_of_false hstate hfree, fun hreg => absurd hreg hstate⟩

/-- Another client `x` of the tenant `a`. -/
def namesake : SessionEvent :=
  .broker (.router (challokMsg [9] (cookieOf 65) (text "hashA") (text "x")))

/-- The client `x` before it registers, with or without the other one. -/
def newcomerAfter (es : List SessionEvent) : Option (Session (List UInt8)) :=
  (Session.start newcomer challenger [0]).run macEnv es

theorem newcomerAfter_clients (taken : Bool) :
    (newcomerAfter (if taken then [namesake] else [])).map (fun n =>
      (decide (n.client.state = .unreg ∧ n.used = [[0]] ∧ n.broker.distCliHt.nodes = []),
        n.broker.lclCliHt.nodes)) =
    some (true, if taken then [⟨text "x", text "a.x", text "a", cookieOf 65, [9]⟩] else []) := by
  cases taken <;> decide

/-- The client registers when it is the only one of its name. -/
theorem registration_completes_newcomer :
    (∃ n n', newcomerAfter [] = some n ∧ n.run macEnv (n.registration [1]) = some n' ∧
      n'.client.state = .registered) ∧
    ∃ n n', newcomerAfter [namesake] = some n ∧ n.run macEnv (n.registration [1]) = some n' ∧
      n'.client.state ≠ .registered := by
  have hcompletes : ∀ {es n}, newcomerAfter es = some n → n.client.state = .unreg →
      [1] ∉ n.used → (∀ c ∈ n.broker.lclCliHt.nodes, c.sockid ≠ [1]) →
      ∃ n', n.run macEnv (n.registration [1]) = some n' ∧
        (n'.client.state = .registered ↔ n.broker.Free (text "a.x")) := by
    intro es n hn hunreg hnew hsock
    obtain ⟨n', hn', hiff, -⟩ := @registration_completes _ macEnv _ Function.injective_id
      (fun _ _ _ => by simp [macEnv]) (fun _ _ _ => by simp [macEnv, Nat.add_comm]) (fun _ => rfl)
      macConfig List.length_replicate challenger ⟨[], .init⟩ (text "x") newcomer.keys (cookieOf 0)
      [] [0] 0 ⟨text "a", cookieOf 65, []⟩ rfl (by decide) rfl (by decide)
        (by decide) es n hn hunreg
      [1] hnew hsock
    exact ⟨n', hn', hiff⟩
  obtain ⟨n, hn, hfree⟩ := Option.map_eq_some_iff.mp (newcomerAfter_clients false)
  obtain ⟨m, hm, htaken⟩ := Option.map_eq_some_iff.mp (newcomerAfter_clients true)
  simp only [Prod.mk.injEq, decide_eq_true_eq] at hfree htaken
  obtain ⟨⟨hstate, hused, hdist⟩, hnodes⟩ := hfree
  obtain ⟨⟨hstate', hused', -⟩, hnodes'⟩ := htaken
  obtain ⟨n', hn', hiff⟩ := hcompletes hn hstate (by simp [hused]) (by simp [hnodes])
  obtain ⟨m', hm', hiff'⟩ := hcompletes hm hstate' (by simp [hused']) (by simp [hnodes'])
  refine ⟨⟨n, n', hn, hn', hiff.mpr ?_⟩, m, m', hm, hm', fun hreg => ?_⟩
  · simp [DdBroker.Free, hnodes, hdist]
  · exact (hiff'.mp hreg).1 _ (by rw [hnodes']; exact List.mem_singleton_self _) rfl

end DoubleDecker
