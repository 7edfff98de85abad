import DoubleDecker.Client.Heard

/-!
# Client/Arrives — what is not lost arrives

    dd_notify  ──SEND──▸ s_cb_send ──DATA──▸ on_data
    dd_publish ──PUB───▸ s_cb_pub  ──PUB───▸ on_pub

Whatever happened in a room before, the call of a registered client can be followed by the steps of
the broker and of the receiver: a notification ends in `on_data` (`notification_arrives`), a
publication in `on_pub` at every open socket its topic is looked up to (`publication_arrives`).
-/

namespace DoubleDecker

open Trie

variable {ι H : Type}

/-! ## One step of each party -/

section

variable {env : Env H} {c : DdClient}

/-- A client opens a `DATA`. -/
theorem clientStep_data {source : CStr} {encrypted data : Frame}
    (hopened : openFrame env encrypted (sourceKey c.keys source) = some (some data)) :
    ∃ h, clientStep env c (.message (ddMsg .data [source.bytes, encrypted])) = some h ∧
      h.calls = [.onData source data] := by
  rw [clientStep_ddMsg, onClientCmd, cbData]
  simp only [CStr.ofBytes_bytes, hopened, Option.map_some]
  exact ⟨_, rfl, rfl⟩

/-- A client opens a `PUB`. -/
theorem clientStep_pub {source topic : CStr} {encrypted data : Frame}
    (hopened : openFrame env encrypted (sourceKey c.keys source) = some (some data)) :
    ∃ h, clientStep env c (.message (ddMsg .pub [source.bytes, topic.bytes, encrypted])) = some h ∧
      h.calls = [.onPub source topic data] := by
  rw [clientStep_ddMsg, onClientCmd, cbPub]
  simp only [CStr.ofBytes_bytes, hopened, Option.map_some]
  exact ⟨_, rfl, rfl⟩

/-- What a client seals is opened under the same key. -/
theorem openFrame_sealFrame
    (hopen : ∀ p n k, env.boxOpenEasyAfternm (env.boxEasyAfternm p n k) n k = some p)
    (henc : ∀ p n k, (env.boxEasyAfternm p n k).length = p.length + macBytes)
    (hinc : ∀ n, (env.nonceIncrement n).length = n.length) (hnonce : c.nonce.length = nonceBytes)
    {plain : Frame} (hfits : fitsInt plain) (key : Frame) :
    openFrame env (sealFrame env c plain key).2 key = some (some plain) := by
  refine openFrame_sealed hopen ((hinc _).trans hnonce) ?_
  rw [henc]
  rw [fitsInt, decide_eq_true_eq] at hfits
  omega

variable [DecidableEq H] {b : DdBroker H}

/-- **The broker delivers a `SEND`** for one of its clients to another one. -/
theorem step_send_local (hinj : Function.Injective env.xxh32) (hok : TablesOk env b)
    {ln ln' : LocalClient} (hln : ln ∈ b.lclCliHt.nodes) (hln' : ln' ∈ b.lclCliHt.nodes)
    {target source : CStr} (htarget : (resolve b.keys ln.tenant target).1 = ln'.prefixName)
    (hsource : shownSource (decide (ln.tenant = publicName)) (resolve b.keys ln.tenant target).2
      ln.prefixName = some source) (encrypted : Frame) :
    step env b (.router (ln.sockid :: ddMsg .send [ln.cookie.1, target.bytes, encrypted])) =
      .done (b.touch ln) [.rsock ln'.sockid (ddMsg .data [source.bytes, encrypted])] := by
  have hrev : hashtableHasRevLocalNode env (b.touch ln) ln'.prefixName = some ln' := by
    refine ((sameTables_touch b ln).tablesOk hok).hasRev_self hinj ?_
    rwa [(sameTables_touch b ln).lclCliHt]
  rw [step_router (routerCmd_ddMsg _ _ _)]
  show sCbSend env b ln.sockid ln.cookie.1 [target.bytes, encrypted] = _
  rw [sCbSend_eq (hok.hasLocal_self hinj hln), CStr.ofBytes_bytes, carry, htarget, hrev]
  simp only [deliver_eq, hsource]

end

namespace Room

variable [DecidableEq ι] [DecidableEq H] {env : Env H} {cfg : Config} {r r' : Room ι H}

variable (r r') in
/-- The sockets and the calls of `on_data` stay as they are. -/
structure Stays : Prop where
  sockid : r'.sockid = r.sockid
  owner : r'.owner = r.owner
  delivered : r'.delivered = r.delivered

omit [DecidableEq ι] [DecidableEq H] in
theorem Stays.trans {r'' : Room ι H} (h : r.Stays r') (h' : r'.Stays r'') : r.Stays r'' where
  sockid := h'.sockid.trans h.sockid
  owner := h'.owner.trans h.owner
  delivered := h'.delivered.trans h.delivered

theorem run_append (es es' : List (RoomEvent ι)) :
    r.run env (es ++ es') = (r.run env es).bind fun r => r.run env es' := by
  induction es generalizing r with
  | nil => rfl
  | cons e es ih =>
    simp only [List.cons_append, run, Option.bind_assoc]
    exact Option.bind_congr fun r' _ => ih

/-- **A client calls**, and sends one message. -/
theorem act_call {i : ι} {e : ClientEvent} (hown : e.isOwn) (hen : e.enabled (r.clients i))
    {h : Handled} (hs : clientStep env (r.clients i) e = some h) {m : List Frame}
    (hsends : h.sends = [m]) {s : Frame} (hsock : r.sockid i = some s) :
    ∃ r', r.act env (.call i e) = some r' ∧ r.Stays r' ∧ r'.broker = r.broker ∧
      r'.up = r.up ++ [(s, m)] ∧ r'.down = r.down := by
  have hnone : e.delivered i h.calls = [] := by cases e <;> first | rfl | cases hown
  simp only [act, if_pos (And.intro hown hen), clientActs, hs, Option.map_some, hsock, hsends,
    hnone, Option.toList_some, List.flatMap_singleton, List.map_cons, List.map_nil, List.append_nil]
  exact ⟨_, rfl, ⟨rfl, rfl, rfl⟩, rfl, rfl, rfl⟩

/-- **The broker takes** the message sent last. -/
theorem act_toBroker_last {up : List (Frame × List Frame)} {s : Frame} {m : List Frame}
    (hup : r.up = up ++ [(s, m)]) {b : DdBroker H} {sends : List Send}
    (hs : step env r.broker (.router (s :: m)) = .done b sends) :
    ∃ r', r.act env (.toBroker up.length) = some r' ∧ r.Stays r' ∧
      r'.down = r.down ++ sends.filterMap Send.toPeer := by
  have hget : r.up[up.length]? = some (s, m) := by rw [hup, List.getElem?_concat_length]
  have herase : r.up.eraseIdx up.length = up := by rw [hup, eraseIdx_concat]
  simp only [act, hget, brokerActs, hs, herase]
  exact ⟨_, rfl, ⟨rfl, rfl, rfl⟩, rfl⟩

/-- **A client takes** a message for its open socket. -/
theorem act_toClient {k : Nat} {s : Frame} {m : List Frame} (hk : r.down[k]? = some (s, m)) {j : ι}
    (howner : r.owner s = some j) (hsock : r.sockid j = some s) {h : Handled}
    (hs : clientStep env (r.clients j) (.message m) = some h) :
    ∃ r', r.act env (.toClient k) = some r' ∧
      r'.delivered = r.delivered ++ h.calls.filterMap (Call.delivered j m) := by
  simp only [act, hk, howner, if_pos hsock, clientActs, hs, Option.map_some]
  exact ⟨_, rfl, rfl⟩

/-- **The broker of a room has no higher one.** -/
theorem connectedN_run {es : List (RoomEvent ι)} (hroot : r.broker.connectedN = false)
    (hrun : r.run env es = some r') : r'.broker.connectedN = false := by
  induction es generalizing r with
  | nil =>
    cases hrun
    exact hroot
  | cons e es ih =>
    obtain ⟨r₁, hact, hrun⟩ := Option.bind_eq_some_iff.mp hrun
    refine ih ?_ hrun
    cases moves hact with
    | call _ hact | ask _ hact | toClient _ _ hact =>
      obtain ⟨_, -, rfl⟩ := of_clientActs hact
      exact hroot
    | toBroker _ hact =>
      obtain ⟨b, sends, hstep, rfl⟩ := of_brokerActs hact
      exact (step_connectedN hstep).trans (by rw [hroot]; rfl)
    | loseUp | loseDown => exact hroot
    | @broker e _ hown _ hact =>
      obtain ⟨b, sends, hstep, rfl⟩ := of_brokerActs hact
      refine (step_connectedN hstep).trans ?_
      rw [hroot]
      cases e <;> first | rfl | cases hown

/-! ### Registered clients -/

variable (cfg) in
/-- **Who is registered has the cookie of its tenant**, and every `REGOK` on its way brings it. -/
structure Trusts (keys : ι → DdKeys) (r : Room ι H) : Prop where
  down : ∀ p ∈ r.down, ∀ body, dealerCmd p.2 = some (.regok, body) → ∃ i ten,
    r.owner p.1 = some i ∧ cfg.keys.tenant (keys i).hash = some ten ∧ body = [ten.cookie.1]
  registered : ∀ i, (r.clients i).state = .registered →
    ∃ ten, cfg.keys.tenant (keys i).hash = some ten ∧ (r.clients i).cookie = ten.cookie

variable {name : ι → CStr} {keys : ι → DdKeys}

omit [DecidableEq H] in
theorem Trusts.clientActs (h : r.Trusts cfg keys) {i : ι} {e : ClientEvent}
    (hregok : ∀ m body, e = .message m → dealerCmd m = some (.regok, body) →
      ∃ ten, cfg.keys.tenant (keys i).hash = some ten ∧ body = [ten.cookie.1])
    (hact : r.clientActs env i e = some r') : r'.Trusts cfg keys := by
  obtain ⟨handled, hs, rfl⟩ := of_clientActs hact
  refine ⟨h.down, fun j hreg => ?_⟩
  simp only [Function.update_apply] at hreg ⊢
  split at hreg
  · next heq =>
    subst heq
    rw [if_pos rfl]
    obtain ⟨hold, hcookie⟩ | ⟨m, cookieFrame, rest, rfl, hm, hcookie⟩ :=
      (clientStep_account hs).2.2 hreg
    · rw [hcookie]
      exact h.registered j hold
    · obtain ⟨ten, hten, hbody⟩ := hregok m _ rfl hm
      cases hbody
      rw [readCookie_cookie] at hcookie
      exact ⟨ten, hten, (Option.some.inj hcookie).symm⟩
  · next hne =>
    rw [if_neg hne]
    exact h.registered j hreg

omit [DecidableEq ι] in
/-- A `REGOK` the broker sends answers the `CHALLOK` of a client. -/
theorem Trusts.brokerActs (hhash : ∀ i, (keys i).hash ≠ cfg.keys.hash)
    (hok : r.Ok env cfg name keys) (h : r.Trusts cfg keys) {e : Event}
    (he : ∀ s m, e = .router (s :: m) →
      ∃ i, r.owner s = some i ∧ Speaks name keys r.notified i m)
    (hact : r.brokerActs env e = some r') : r'.Trusts cfg keys := by
  obtain ⟨b, sends, hstep, rfl⟩ := of_brokerActs hact
  refine ⟨fun p hp body hbody => ?_, h.registered⟩
  obtain hp | hp := List.mem_append.mp hp
  · exact h.down p hp body hbody
  · obtain ⟨dest, d⟩ := p
    have hd : d ∈ sends.filterMap (Send.toSocket dest) := by
      obtain ⟨x, hx, hpeer⟩ := List.mem_filterMap.mp hp
      cases x with
      | rsock dest' d' =>
        cases hpeer
        exact List.mem_filterMap.mpr ⟨_, hx, if_pos rfl⟩
      | _ => cases hpeer
    obtain ⟨m, cook, hash, clientName, tail, rfl, hm, hentered⟩ := regok_step hstep hd hbody
    obtain ⟨i, hi, hspeaks⟩ := he _ _ rfl
    obtain ⟨f, hframes⟩ := hspeaks.challok _ hm
    cases hframes
    rw [CStr.ofBytes_bytes, hok.broker.choose_spec.keys] at hentered
    obtain hbroker | ⟨ten, hten, hcookie, -⟩ := hentered
    · exact absurd hbroker (hhash i)
    · exact ⟨i, ten, hi, hten, hcookie⟩

omit [DecidableEq ι] [DecidableEq H] in
theorem Trusts.leave (h : r.Trusts cfg keys) {up down : List (Frame × List Frame)}
    (hdown : down ⊆ r.down) : Trusts cfg keys { r with up, down } where
  down p hp := h.down p (hdown hp)
  registered := h.registered

omit [DecidableEq H] in
theorem Trusts.connect (h : r.Trusts cfg keys) {s : Frame} (hs : r.owner s = none) (i : ι) :
    Trusts cfg keys { r with
      sockid := Function.update r.sockid i (some s)
      owner := Function.update r.owner s (some i) } where
  down p hp body hbody := by
    obtain ⟨j, ten, hj, hrest⟩ := h.down p hp body hbody
    exact ⟨j, ten, owner_update hs hj, hrest⟩
  registered := h.registered

/-- **Every step keeps the cookies.** -/
theorem Trusts.act (hhash : ∀ i, (keys i).hash ≠ cfg.keys.hash) (hok : r.Ok env cfg name keys)
    (h : r.Trusts cfg keys) {e : RoomEvent ι} (hact : r.act env e = some r') :
    r'.Trusts cfg keys := by
  cases moves hact with
  | call hown hact =>
    refine h.clientActs (fun m body he => ?_) hact
    rw [he] at hown
    cases hown
  | @ask i s _ hs hact => exact (h.connect hs i).clientActs (fun m body he => by cases he) hact
  | @toClient k s m i _ hk hs hact =>
    refine (h.leave (r.down.eraseIdx_sublist k).subset).clientActs (fun m' body he hm => ?_) hact
    cases he
    obtain ⟨j, ten, hj, hten, hbody⟩ := h.down _ (List.mem_of_getElem? hk) body hm
    rw [hs] at hj
    cases hj
    exact ⟨ten, hten, hbody⟩
  | @toBroker k s m _ hk hact =>
    have hleft := hok.leave (r.up.eraseIdx_sublist k).subset (List.Subset.refl r.down)
    refine (h.leave (List.Subset.refl r.down)).brokerActs hhash hleft (fun s' m' he => ?_) hact
    cases he
    exact hok.up _ (List.mem_of_getElem? hk)
  | loseUp => exact h.leave (List.Subset.refl r.down)
  | loseDown k => exact h.leave (r.down.eraseIdx_sublist k).subset
  | broker hown hen hact =>
    refine h.brokerActs hhash hok (fun s m he => ?_) hact
    rw [he] at hown
    cases hown

theorem Trusts.run (hinj : Function.Injective env.xxh32)
    (hopen : ∀ p n k, env.boxOpenEasyAfternm (env.boxEasyAfternm p n k) n k = some p)
    (henc : ∀ p n k, (env.boxEasyAfternm p n k).length = p.length + macBytes)
    (hinc : ∀ n, (env.nonceIncrement n).length = n.length)
    (hhash : ∀ i, (keys i).hash ≠ cfg.keys.hash) (hok : r.Ok env cfg name keys)
    (h : r.Trusts cfg keys) {es : List (RoomEvent ι)} (hrun : r.run env es = some r') :
    r'.Trusts cfg keys := by
  induction es generalizing r with
  | nil =>
    cases hrun
    exact h
  | cons e es ih =>
    obtain ⟨r₁, hact, hrun⟩ := Option.bind_eq_some_iff.mp hrun
    exact ih (hok.act hinj hopen henc hinc hact) (h.act hhash hok hact) hrun

omit [DecidableEq ι] [DecidableEq H] in
variable (name keys) in
/-- Nobody is registered. -/
theorem trusts_start (cookie : ι → Cookie) (nonce : ι → Frame) (b : DdBroker H) :
    (start (fun i => ddNew (name i) (keys i) (cookie i) (nonce i)) b).Trusts cfg keys where
  down _ hp := absurd hp List.not_mem_nil
  registered _ hreg := by cases hreg

omit [DecidableEq ι] in
/-- A registered client has the cookie of its entry. -/
theorem Trusts.cookie (hok : r.Ok env cfg name keys) (h : r.Trusts cfg keys) {i : ι}
    {ln : LocalClient} (hi : r.sockid i = some ln.sockid) (hln : ln ∈ r.broker.lclCliHt.nodes)
    (hreg : (r.clients i).state = .registered) : (r.clients i).cookie = ln.cookie := by
  obtain ⟨j, ten, hj, hten, hentry⟩ := hok.entry ln hln
  rw [hok.sockid i _ hi] at hj
  cases hj
  obtain ⟨ten', hten', hcookie⟩ := h.registered i hreg
  cases hten.symm.trans hten'
  rw [hcookie, hentry]
  rfl

/-! ### Three steps -/

/-- **A message passes the broker** at once: its sender calls, and the broker takes it. -/
theorem Ok.passes (hinj : Function.Injective env.xxh32)
    (hopen : ∀ p n k, env.boxOpenEasyAfternm (env.boxEasyAfternm p n k) n k = some p)
    (henc : ∀ p n k, (env.boxEasyAfternm p n k).length = p.length + macBytes)
    (hinc : ∀ n, (env.nonceIncrement n).length = n.length) (hok : r.Ok env cfg name keys) {i : ι}
    {e : ClientEvent} (hown : e.isOwn) (hen : e.enabled (r.clients i)) {h : Handled}
    (hs : clientStep env (r.clients i) e = some h) {m : List Frame} (hsends : h.sends = [m])
    {s : Frame} (hsock : r.sockid i = some s) {b : DdBroker H} {sends : List Send}
    (hstep : step env r.broker (.router (s :: m)) = .done b sends) :
    ∃ r', r.run env [.call i e, .toBroker r.up.length] = some r' ∧ r'.Ok env cfg name keys ∧
      r.Stays r' ∧ r'.down = r.down ++ sends.filterMap Send.toPeer := by
  obtain ⟨r₁, hact₁, hstays₁, hbroker, hup, hdown₁⟩ := act_call hown hen hs hsends hsock
  have hok₁ := hok.act hinj hopen henc hinc hact₁
  obtain ⟨r₂, hact₂, hstays₂, hdown₂⟩ := act_toBroker_last hup (hbroker ▸ hstep)
  refine ⟨r₂, ?_, hok₁.act hinj hopen henc hinc hact₂, hstays₁.trans hstays₂, hdown₁ ▸ hdown₂⟩
  simp only [Room.run, hact₁, hact₂, Option.bind_some]

end Room

section

variable [DecidableEq ι] [DecidableEq H] {env : Env H} (hinj : Function.Injective env.xxh32)
  (hopen : ∀ p n k, env.boxOpenEasyAfternm (env.boxEasyAfternm p n k) n k = some p)
  (henc : ∀ p n k, (env.boxEasyAfternm p n k).length = p.length + macBytes)
  (hinc : ∀ n, (env.nonceIncrement n).length = n.length) (cfg : Config) (name : ι → CStr)
  (keys : ι → DdKeys) (cookie : ι → Cookie) (nonce : ι → Frame)
  (hnonce : ∀ i, (nonce i).length = nonceBytes) (hhash : ∀ i, (keys i).hash ≠ cfg.keys.hash)
  (es : List (RoomEvent ι)) (r : Room ι H)
  (hrun : (Room.start (fun i => ddNew (name i) (keys i) (cookie i) (nonce i))
    (ddBrokerNew H cfg)).run env es = some r) {i : ι} {ln : LocalClient}
  (hi : r.sockid i = some ln.sockid) (hln : ln ∈ r.broker.lclCliHt.nodes)
  (hreg : (r.clients i).state = .registered)

include hinj hopen henc hinc hnonce hhash hrun hi hln hreg

/-- **A notification arrives** — whatever happened in a room before: when a registered client with
an entry in the broker's table notifies the client of another entry, the broker's turn and the
receiver's can follow at once; then `on_data` is called once more, with the message and the source
that is shown of the sender. -/
theorem notification_arrives {j : ι} {ln' : LocalClient} (hj : r.sockid j = some ln'.sockid)
    (hln' : ln' ∈ r.broker.lclCliHt.nodes) {target source : CStr} {plain : Frame}
    (hfits : fitsInt plain) (htarget : (resolve cfg.keys ln.tenant target).1 = ln'.prefixName)
    (hsource : shownSource (decide (ln.tenant = publicName)) (resolve cfg.keys ln.tenant target).2
      ln.prefixName = some source)
    (hkey : notifyKey (keys i) target = sourceKey (keys j) source) :
    ∃ r' msg, r.run env [.call i (.notify target plain), .toBroker r.up.length,
        .toClient r.down.length] = some r' ∧
      r'.delivered = r.delivered ++ [⟨j, msg, source, plain⟩] := by
  have hstart := Room.ok_start env cfg name keys cookie hnonce
  have hok := hstart.run hinj hopen henc hinc hrun
  have hcookie := ((Room.trusts_start name keys cookie nonce _).run hinj hopen henc hinc hhash
    hstart hrun).cookie hok hi hln hreg
  have hkeys : r.broker.keys = cfg.keys := hok.broker.choose_spec.keys
  -- the client
  set encrypted := (sealFrame env (r.clients i) plain (notifyKey (keys i) target)).2 with hencrypted
  have hs : clientStep env (r.clients i) (.notify target plain) = some
      { self := (sealFrame env (r.clients i) plain (notifyKey (keys i) target)).1
        sends := [ddMsg .send [ln.cookie.1, target.bytes, encrypted]] } := by
    simp [clientStep, ddNotify, hfits, hreg, hcookie, hok.ownKeys, hencrypted, sealFrame]
  -- the broker
  have hstep := step_send_local hinj (hok.broker.tablesOk hinj) hln hln' (hkeys ▸ htarget)
    (hkeys ▸ hsource) encrypted
  obtain ⟨r₂, hrun₂, hok₂, hstays, hdown⟩ := hok.passes hinj hopen henc hinc rfl rfl hs rfl hi hstep
  -- the receiver
  have hopened : openFrame env encrypted (sourceKey (r₂.clients j).keys source) =
      some (some plain) := by
    rw [hok₂.ownKeys, ← hkey]
    exact openFrame_sealFrame hopen henc hinc (hok.nonce i) hfits _
  obtain ⟨h, hs₂, hcalls⟩ := clientStep_data hopened
  have hsock : r₂.sockid j = some ln'.sockid := by rw [hstays.sockid, hj]
  have hget : r₂.down[r.down.length]? =
      some (ln'.sockid, ddMsg .data [source.bytes, encrypted]) := by
    rw [hdown]
    exact List.getElem?_concat_length
  obtain ⟨r', hact, hdelivered⟩ := Room.act_toClient hget (hok₂.sockid j _ hsock) hsock hs₂
  refine ⟨r', _, ?_, by rw [hdelivered, hcalls, hstays.delivered]; rfl⟩
  refine (Room.run_append [_, _] [_]).trans ?_
  rw [hrun₂, Option.bind_some, Room.run, hact]
  rfl

/-- **A publication arrives** — whatever happened in a room before: when a registered client with an
entry in the broker's table publishes a topic, a `PUB` goes to every socket id the lookup of the
topic returns and to no other, and a client with that open socket and the same key can take it; then
`on_pub` is called with the message, the topic and the source that is shown of the sender. -/
theorem publication_arrives {topic shown pubtopic source : CStr} {plain key : Frame}
    (hfits : fitsInt plain) (hkey : publishKey (keys i) topic = some key) (hne : topic ≠ ∅)
    (hcompose : composeTopic (ddBrokerNew H cfg) ln topic = (shown, pubtopic, source)) :
    ∃ r' socks m, r.run env [.call i (.publish topic plain), .toBroker r.up.length] = some r' ∧
      nnTrieTree r.broker.topicsTrie pubtopic.bytes = some socks ∧
      r'.down = r.down ++ (socks.getD []).map (fun s => (s, m)) ∧
      (∃ encrypted, m = ddMsg .pub [source.bytes, shown.bytes, encrypted]) ∧
      ∀ j s, s ∈ socks.getD [] → r.sockid j = some s → key = sourceKey (keys j) source →
        ∃ (k : Nat) (h : Handled), r'.down[k]? = some (s, m) ∧
          clientStep env (r'.clients j) (.message m) = some h ∧
          h.calls = [.onPub source shown plain] ∧ (r'.act env (.toClient k)).isSome := by
  have hstart := Room.ok_start env cfg name keys cookie hnonce
  have hok := hstart.run hinj hopen henc hinc hrun
  have hcookie := ((Room.trusts_start name keys cookie nonce _).run hinj hopen henc hinc hhash
    hstart hrun).cookie hok hi hln hreg
  obtain ⟨l, -, -, hsocks⟩ := TightRoot.lookup_tree hok.broker.tight pubtopic.bytes
  -- the client
  set encrypted := (sealFrame env (r.clients i) plain key).2 with hencrypted
  have hs : clientStep env (r.clients i) (.publish topic plain) = some
      { self := (sealFrame env (r.clients i) plain key).1
        sends := [ddMsg .pub [ln.cookie.1, topic.bytes, [], encrypted]] } := by
    simp [clientStep, ddPublish, hkey, hfits, hreg, hcookie, hok.ownKeys, hencrypted, sealFrame]
  -- the broker
  have hroot := Room.connectedN_run rfl hrun
  have hstep := step_pubAccepted
    (routerCmd_ddMsg ln.sockid .pub [ln.cookie.1, topic.bytes, [], encrypted])
    (acceptedFor_eq_some.mpr ((hok.broker.tablesOk hinj).hasLocal_self hinj hln))
    (by rwa [CStr.ofBytes_bytes]) (by simp [hroot])
    (by rw [CStr.ofBytes_bytes, hok.broker.composeTopic, hcompose]) hsocks
  obtain ⟨r₂, hrun₂, hok₂, hstays, hdown⟩ := hok.passes hinj hopen henc hinc rfl rfl hs rfl hi hstep
  have hpubs : r₂.down = r.down ++ (l.result.getD []).map fun s =>
      (s, ddMsg .pub [source.bytes, shown.bytes, encrypted]) := by
    simp only [hdown, passNorth, hroot, pubLocally, zmsgPop, Bool.false_eq_true, if_false,
      List.nil_append, List.singleton_append, List.filterMap_cons, Send.toPeer, List.filterMap_map]
    exact congrArg _ (congrFun List.filterMap_eq_map' _)
  refine ⟨r₂, l.result, _, hrun₂, hsocks, hpubs, ⟨encrypted, rfl⟩, fun j s hmem hj hsame => ?_⟩
  -- the receiver
  have hopened : openFrame env encrypted (sourceKey (r₂.clients j).keys source) =
      some (some plain) := by
    rw [hok₂.ownKeys, ← hsame]
    exact openFrame_sealFrame hopen henc hinc (hok.nonce i) hfits key
  obtain ⟨h, hs₂, hcalls⟩ := @clientStep_pub _ _ _ source shown _ _ hopened
  have hsock : r₂.sockid j = some s := by rw [hstays.sockid, hj]
  have hpub : (s, ddMsg .pub [source.bytes, shown.bytes, encrypted]) ∈ r₂.down := by
    rw [hpubs]
    exact List.mem_append_right _ (List.mem_map_of_mem hmem)
  obtain ⟨k, hk⟩ := List.mem_iff_getElem?.mp hpub
  obtain ⟨r', hact, -⟩ := Room.act_toClient hk (hok₂.sockid j s hsock) hsock hs₂
  exact ⟨k, h, hk, hs₂, hcalls, Option.isSome_iff_exists.mpr ⟨r', hact⟩⟩

end

/-! ### Two clients -/

/-- `c` and `d` of the tenant `a`, as the broker enters them over the sockets `1` and `2`. -/
def coupleEntry (d : Bool) : LocalClient :=
  DdTenant.entry ⟨text "a", cookieOf 65, []⟩ (couple d).clientName (if d then [2] else [1])

/-- What stands in a room after some events: the two sockets, the entries, and how `c` is
registered. -/
def coupleAfter (es : List (RoomEvent Bool)) : Option (Room Bool (List UInt8)) :=
  (Room.start couple (ddBrokerNew _ macConfig)).run macEnv es

theorem coupleAfter_registered : (coupleAfter (firstNotification.take 10)).map (fun r =>
      decide (r.sockid false = some [1] ∧ r.sockid true = some [2] ∧
        r.broker.lclCliHt.nodes = [coupleEntry false, coupleEntry true] ∧
        (r.clients false).state = .registered)) =
    some true := by
  decide +kernel

/-- A notification of `c` arrives at `d` as soon as both are registered. -/
theorem notification_arrives_couple : ∃ (r r' : Room Bool (List UInt8)) (msg : List Frame),
    coupleAfter (firstNotification.take 10) = some r ∧
      r.run macEnv [.call false (.notify (text "d") [1, 2, 3]), .toBroker r.up.length,
        .toClient r.down.length] = some r' ∧
      r'.delivered = r.delivered ++ [⟨true, msg, text "c", [1, 2, 3]⟩] := by
  obtain ⟨r, hr, hfacts⟩ := Option.map_eq_some_iff.mp coupleAfter_registered
  obtain ⟨hi, hj, hnodes, hreg⟩ := of_decide_eq_true hfacts
  obtain ⟨r', msg, hrun, hdelivered⟩ := @notification_arrives _ _ _ _ macEnv Function.injective_id
    (fun _ _ _ => by simp [macEnv]) (fun _ _ _ => by simp [macEnv, Nat.add_comm]) (fun _ => rfl)
    macConfig (fun i => (couple i).clientName) (fun i => (couple i).keys) (fun _ => cookieOf 0)
    (fun _ => List.replicate nonceBytes 0) (fun _ => List.length_replicate) (by decide) _ r hr false
    (coupleEntry false) hi (by simp [hnodes]) hreg true (coupleEntry true) hj
    (by simp [hnodes]) (text "d") (text "c") [1, 2, 3] (by decide) (by decide) (by decide)
      (by decide)
  exact ⟨r, r', msg, hr, hrun, hdelivered⟩

theorem coupleAfter_subscribed : (coupleAfter (firstPublication.take 11 ++ [.toBroker 2])).map
      (fun r => decide (r.sockid false = some [1] ∧ r.sockid true = some [2] ∧
        r.broker.lclCliHt.nodes = [coupleEntry false, coupleEntry true] ∧
        (r.clients false).state = .registered ∧
        nnTrieTree r.broker.topicsTrie (text "a.y/1/2/3/").bytes = some (some [[2]]))) =
    some true := by
  decide +kernel

/-- A publication of `c` arrives at `d` as soon as it subscribed. -/
theorem publication_arrives_couple : ∃ r r' : Room Bool (List UInt8),
    coupleAfter (firstPublication.take 11 ++ [.toBroker 2]) = some r ∧
      r.run macEnv [.call false (.publish (text "y") [1, 2, 3]), .toBroker r.up.length] = some r' ∧
      ∃ (k : Nat) (m : List Frame) (h : Handled), r'.down = r.down ++ [([2], m)] ∧
        r'.down[k]? = some ([2], m) ∧ clientStep macEnv (r'.clients true) (.message m) = some h ∧
        h.calls = [.onPub (text "c") (text "y") [1, 2, 3]] := by
  obtain ⟨r, hr, hfacts⟩ := Option.map_eq_some_iff.mp coupleAfter_subscribed
  obtain ⟨hi, hj, hnodes, hreg, hlook⟩ := of_decide_eq_true hfacts
  obtain ⟨r', socks, m, hrun, hsocks, hdown, -, harrives⟩ := @publication_arrives _ _ _ _ macEnv
    Function.injective_id (fun _ _ _ => by simp [macEnv])
    (fun _ _ _ => by simp [macEnv, Nat.add_comm]) (fun _ => rfl) macConfig
    (fun i => (couple i).clientName) (fun i => (couple i).keys) (fun _ => cookieOf 0)
    (fun _ => List.replicate nonceBytes 0) (fun _ => List.length_replicate) (by decide) _ r hr false
    (coupleEntry false) hi (by simp [hnodes]) hreg (text "y") (text "y")
    (text "a.y/1/2/3/") (text "c") [1, 2, 3] [7] (by decide) (by decide) (by decide) (by decide)
  cases hlook.symm.trans hsocks
  obtain ⟨k, h, hk, hs, hcalls, -⟩ := harrives true [2] (by decide) hj (by decide)
  exact ⟨r, r', hr, hrun, k, m, h, hdown, hk, hs, hcalls⟩

end DoubleDecker
