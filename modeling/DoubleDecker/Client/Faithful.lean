import DoubleDecker.Client.Rooms

/-!
# Client/Faithful — what reaches an application was sent to it

    dd_notify ──SEND──▸ s_cb_send ──DATA──▸ cb_data ──▸ on_data

Whatever the clients of a room do and in whatever order things happen, behind each call of
`on_data` stands a call of `dd_notify` by the client it names and for the client it is made at, and
no frame is delivered more often than it was sealed (`notifications_faithful`).
-/

namespace DoubleDecker

variable {ι H : Type}

/-! ## Where everything comes from -/

section

variable (env : Env H) (cfg : Config) (name : ι → CStr) (keys : ι → DdKeys)

/-- A notification names its sender and its receiver as they are registered: the destination is the
full name of the receiver, the source what is shown of the sender's. -/
def Notified.Between (q : Notified ι) (source : CStr) (i : ι) : Prop :=
  ∃ ten ten', cfg.keys.tenant (keys q.client).hash = some ten ∧
    cfg.keys.tenant (keys i).hash = some ten' ∧
    (resolve cfg.keys ten.name q.target).1 = joined 255 ten'.name (name i) ∧
    shownSource (decide (ten.name = publicName)) (resolve cfg.keys ten.name q.target).2
      (joined 255 ten.name (name q.client)) = some source

/-- The frame of a call of `dd_notify` is its message, under a nonce and the key for its target. -/
def Notified.Sealed (q : Notified ι) : Prop :=
  ∃ nonce, nonce.length = nonceBytes ∧ fitsInt q.message ∧ q.encrypted =
    nonce ++ env.boxEasyAfternm q.message nonce (notifyKey (keys q.client) q.target)

/-- **A call of `on_data` that a call of `dd_notify` stands behind** — at its receiver, with its
sender and its frame, and with its message if both ends have the same key. -/
structure Notified.Behind (q : Notified ι) (d : Delivered ι) : Prop where
  frame : dataFrame d.msg = some q.encrypted
  between : q.Between cfg name keys d.source d.client
  message : notifyKey (keys q.client) q.target = sourceKey (keys d.client) d.source →
    d.data = q.message

/-- **What a client says** on the way up: its own hash and name, the frames of its own calls of
`dd_notify`, and no `FORWARD`. -/
structure Speaks (notified : List (Notified ι)) (i : ι) (m : List Frame) : Prop where
  forward : ∀ body, dealerCmd m ≠ some (.forward, body)
  challok : ∀ body, dealerCmd m = some (.challok, body) →
    ∃ f, body = [f, (keys i).hash.bytes, (name i).bytes]
  send : ∀ body, dealerCmd m = some (.send, body) →
    ∃ q ∈ notified, ∃ cookie : Cookie, q.client = i ∧ body = [cookie.1, q.target.bytes, q.encrypted]

/-- **What a `DATA` bears** to a client: the frame of a call of `dd_notify` that is for it. -/
def Bears (notified : List (Notified ι)) (i : ι) (m : List Frame) : Prop :=
  ∀ body, dealerCmd m = some (.data, body) → ∃ q ∈ notified, ∃ source : CStr,
    body = [source.bytes, q.encrypted] ∧ q.Between cfg name keys source i

/-- **The state of a room.** -/
structure Room.Ok [DecidableEq H] (r : Room ι H) : Prop where
  ownName : ∀ i, (r.clients i).clientName = name i
  ownKeys : ∀ i, (r.clients i).keys = keys i
  nonce : ∀ i, (r.clients i).nonce.length = nonceBytes
  broker : Reachable env cfg r.broker
  sockid : ∀ i s, r.sockid i = some s → r.owner s = some i
  entry : ∀ c ∈ r.broker.lclCliHt.nodes, ∃ i ten, r.owner c.sockid = some i ∧
    cfg.keys.tenant (keys i).hash = some ten ∧ c = ten.entry (name i) c.sockid
  up : ∀ p ∈ r.up, ∃ i, r.owner p.1 = some i ∧ Speaks name keys r.notified i p.2
  down : ∀ p ∈ r.down, ∀ body, dealerCmd p.2 = some (.data, body) →
    ∃ i, r.owner p.1 = some i ∧ Bears cfg name keys r.notified i p.2
  sealed : ∀ q ∈ r.notified, q.Sealed env keys
  delivered : ∀ d ∈ r.delivered, ∃ q ∈ r.notified, q.Behind cfg name keys d

end

section

variable {env : Env H} {cfg : Config} {name : ι → CStr} {keys : ι → DdKeys}
  {notified notified' : List (Notified ι)} {i : ι} {m : List Frame}

theorem Speaks.mono (h : Speaks name keys notified i m) (hsub : notified ⊆ notified') :
    Speaks name keys notified' i m where
  forward := h.forward
  challok := h.challok
  send body hbody := by
    obtain ⟨q, hq, hrest⟩ := h.send body hbody
    exact ⟨q, hsub hq, hrest⟩

theorem Bears.mono (h : Bears cfg name keys notified i m) (hsub : notified ⊆ notified') :
    Bears cfg name keys notified' i m := by
  intro body hbody
  obtain ⟨q, hq, hrest⟩ := h body hbody
  exact ⟨q, hsub hq, hrest⟩

/-- **A client speaks for itself.** -/
theorem speaks_of_clientStep {c : DdClient} {e : ClientEvent} {h : Handled}
    (hs : clientStep env c e = some h) (hname : c.clientName = name i) (hkeys : c.keys = keys i)
    (hm : m ∈ h.sends) : Speaks name keys (notified ++ e.notified env c i) i m := by
  have hchallok : ∀ body, dealerCmd m = some (.challok, body) →
      ∃ f, body = [f, (keys i).hash.bytes, (name i).bytes] := by
    intro body hbody
    rw [← hkeys, ← hname]
    exact challok_clientStep hs hm hbody
  obtain ⟨target, plain, rfl, hsends⟩ | ⟨-, hother⟩ := @clientStep_sends ι _ _ _ _ _ hs
  · rw [hsends] at hm
    split at hm
    · cases List.mem_singleton.mp hm
      refine ⟨fun body => ?_, hchallok, fun body hbody => ?_⟩
      · rw [sentFor, dealerCmd_ddMsg]
        simp
      · rw [sentFor, dealerCmd_ddMsg] at hbody
        cases hbody
        exact ⟨_, List.mem_append_right _ (List.mem_singleton_self _), c.cookie, rfl, rfl⟩
    · cases hm
  · obtain ⟨cmd, body', rfl, hcmd⟩ := hother m hm
    refine ⟨fun body hbody => ?_, hchallok, fun body hbody => ?_⟩ <;>
    · rw [dealerCmd_ddMsg] at hbody
      cases hbody
      simp at hcmd

/-- **A call of `dd_notify` seals its message.** -/
theorem sealed_of_clientStep (hinc : ∀ n, (env.nonceIncrement n).length = n.length) {c : DdClient}
    {e : ClientEvent} {h : Handled} (hs : clientStep env c e = some h) (hkeys : c.keys = keys i)
    (hnonce : c.nonce.length = nonceBytes) {q : Notified ι} (hq : q ∈ e.notified env c i) :
    q.Sealed env keys := by
  cases e with
  | notify target plain =>
    obtain ⟨hfits, -⟩ := clientStep_notify hs
    cases List.mem_singleton.mp hq
    exact ⟨_, (hinc _).trans hnonce, hfits, by rw [← hkeys]; rfl⟩
  | _ => cases hq

/-- The nonce of a client keeps its length. -/
theorem length_nonce_clientStep (hinc : ∀ n, (env.nonceIncrement n).length = n.length)
    {c : DdClient} {e : ClientEvent} {h : Handled} (hs : clientStep env c e = some h) :
    h.self.nonce.length = c.nonce.length := by
  rw [clientStep_nonce hs]
  cases htaken : e.takenNonce env c with
  | none => rfl
  | some n => rw [Option.getD_some, ClientEvent.eq_of_takenNonce htaken, hinc]

/-- **Behind a call of `on_data` stands a call of `dd_notify`** that the message was for. -/
theorem behind_of_clientStep
    (hopen : ∀ p n k, env.boxOpenEasyAfternm (env.boxEasyAfternm p n k) n k = some p)
    (henc : ∀ p n k, (env.boxEasyAfternm p n k).length = p.length + macBytes) {c : DdClient}
    {e : ClientEvent} {h : Handled} (hs : clientStep env c e = some h) (hkeys : c.keys = keys i)
    (hbears : ∀ msg, e = .message msg → Bears cfg name keys notified i msg)
    (hsealed : ∀ q ∈ notified, q.Sealed env keys) {d : Delivered ι}
    (hd : d ∈ e.delivered i h.calls) : ∃ q ∈ notified, q.Behind cfg name keys d := by
  obtain hnone | ⟨msg, source, encrypted, rest, data, rfl, hmsg, hopened, hone⟩ :=
    clientStep_delivered i hs
  · rw [hnone] at hd
    cases hd
  · rw [hone] at hd
    cases List.mem_singleton.mp hd
    obtain ⟨q, hq, source', hbody, hbetween⟩ := hbears msg rfl _ hmsg
    cases hbody
    refine ⟨q, hq, by rw [dataFrame, hmsg], ?_, fun hkey => ?_⟩
    · rwa [CStr.ofBytes_bytes]
    · obtain ⟨nonce, hlength, hfits, hencrypted⟩ := hsealed q hq
      simp only at hkey
      rw [hkeys, ← hkey, hencrypted, openFrame_sealed hopen hlength] at hopened
      · exact (Option.some.inj (Option.some.inj hopened)).symm
      · rw [henc]
        rw [fitsInt, decide_eq_true_eq] at hfits
        omega

end

namespace Room

variable [DecidableEq ι] [DecidableEq H] {env : Env H} {cfg : Config} {name : ι → CStr}
  {keys : ι → DdKeys} {r r' : Room ι H}

omit [DecidableEq H] in
/-- The client acts. -/
theorem of_clientActs {i : ι} {e : ClientEvent} (hact : r.clientActs env i e = some r') :
    ∃ h, clientStep env (r.clients i) e = some h ∧ r' = { r with
      clients := Function.update r.clients i h.self
      up := r.up ++ (r.sockid i).toList.flatMap fun s => h.sends.map fun m => (s, m)
      notified := r.notified ++ e.notified env (r.clients i) i
      delivered := r.delivered ++ e.delivered i h.calls } := by
  obtain ⟨h, hs, rfl⟩ := Option.map_eq_some_iff.mp hact
  exact ⟨h, hs, rfl⟩

omit [DecidableEq ι] in
/-- The broker acts. -/
theorem of_brokerActs {e : Event} (hact : r.brokerActs env e = some r') :
    ∃ b sends, step env r.broker e = .done b sends ∧
      r' = { r with broker := b, down := r.down ++ sends.filterMap Send.toPeer } := by
  unfold brokerActs at hact
  split at hact
  · next b sends hs => exact ⟨b, sends, hs, (Option.some.inj hact).symm⟩
  · cases hact

omit [DecidableEq ι] in
/-- Messages that get lost, or leave their link. -/
theorem Ok.leave (h : r.Ok env cfg name keys) {up down : List (Frame × List Frame)}
    (hup : up ⊆ r.up) (hdown : down ⊆ r.down) :
    Ok env cfg name keys { r with up, down } :=
  { h with
    up := fun p hp => h.up p (hup hp)
    down := fun p hp => h.down p (hdown hp) }

/-- **A client acts**, on its own or for a message that was for it. -/
theorem Ok.clientActs
    (hopen : ∀ p n k, env.boxOpenEasyAfternm (env.boxEasyAfternm p n k) n k = some p)
    (henc : ∀ p n k, (env.boxEasyAfternm p n k).length = p.length + macBytes)
    (hinc : ∀ n, (env.nonceIncrement n).length = n.length) (h : r.Ok env cfg name keys) {i : ι}
    {e : ClientEvent} (hbears : ∀ msg, e = .message msg → Bears cfg name keys r.notified i msg)
    (hact : r.clientActs env i e = some r') : r'.Ok env cfg name keys := by
  obtain ⟨handled, hs, rfl⟩ := Room.of_clientActs hact
  obtain ⟨hname, hkeys, -⟩ := clientStep_account hs
  have hupdate : ∀ {P : ι → DdClient → Prop}, (∀ j, P j (r.clients j)) → P i handled.self →
      ∀ j, P j (Function.update r.clients i handled.self j) := by
    intro P hold hnew j
    rw [Function.update_apply]
    split
    · next heq => exact heq ▸ hnew
    · exact hold j
  refine ⟨hupdate (P := fun j c => c.clientName = name j) h.ownName (hname.trans (h.ownName i)),
    hupdate (P := fun j c => c.keys = keys j) h.ownKeys (hkeys.trans (h.ownKeys i)),
    hupdate (P := fun _ c => c.nonce.length = nonceBytes) h.nonce
      ((length_nonce_clientStep hinc hs).trans (h.nonce i)),
    h.broker, h.sockid, h.entry, fun p hp => ?_, fun p hp body hbody => ?_, fun q hq => ?_,
    fun d hd => ?_⟩
  · obtain hp | hp := List.mem_append.mp hp
    · obtain ⟨j, hj, hspeaks⟩ := h.up p hp
      exact ⟨j, hj, hspeaks.mono (List.subset_append_left _ _)⟩
    · obtain ⟨s, hsock, hp⟩ := List.mem_flatMap.mp hp
      obtain ⟨m, hm, rfl⟩ := List.mem_map.mp hp
      exact ⟨i, h.sockid i s (Option.mem_toList.mp hsock),
        speaks_of_clientStep hs (h.ownName i) (h.ownKeys i) hm⟩
  · obtain ⟨j, hj, hbears⟩ := h.down p hp body hbody
    exact ⟨j, hj, hbears.mono (List.subset_append_left _ _)⟩
  · obtain hq | hq := List.mem_append.mp hq
    · exact h.sealed q hq
    · exact sealed_of_clientStep hinc hs (h.ownKeys i) (h.nonce i) hq
  · obtain ⟨q, hq, hbehind⟩ := (List.mem_append.mp hd).elim (h.delivered d)
      (behind_of_clientStep hopen henc hs (h.ownKeys i) hbears h.sealed)
    exact ⟨q, List.mem_append_left _ hq, hbehind⟩

omit [DecidableEq ι] [DecidableEq H] in
/-- What was of a client stays its own. -/
theorem owner_update {s : Frame} (hs : r.owner s = none) {i j : ι} {s' : Frame}
    (h : r.owner s' = some j) : Function.update r.owner s (some i) s' = some j := by
  rw [Function.update_of_ne fun heq => ?_, h]
  rw [heq, hs] at h
  cases h

/-- **A client opens a socket** that nobody had. -/
theorem Ok.connect (h : r.Ok env cfg name keys) {s : Frame} (hs : r.owner s = none) (i : ι) :
    Ok env cfg name keys { r with
      sockid := Function.update r.sockid i (some s)
      owner := Function.update r.owner s (some i) } := by
  refine { h with
    sockid := fun j s' hj => ?_, entry := fun c hc => ?_, up := fun p hp => ?_
    down := fun p hp body hbody => ?_ }
  · simp only [Function.update_apply] at hj
    split at hj
    · next heq =>
      cases hj
      exact heq ▸ Function.update_self _ _ _
    · exact owner_update hs (h.sockid j s' hj)
  · obtain ⟨j, ten, hj, hrest⟩ := h.entry c hc
    exact ⟨j, ten, owner_update hs hj, hrest⟩
  · obtain ⟨j, hj, hspeaks⟩ := h.up p hp
    exact ⟨j, owner_update hs hj, hspeaks⟩
  · obtain ⟨j, hj, hbears⟩ := h.down p hp body hbody
    exact ⟨j, owner_update hs hj, hbears⟩

omit [DecidableEq ι] in
/-- **A client is taken for the entry it has.** -/
theorem Ok.accepted (hinj : Function.Injective env.xxh32) (h : r.Ok env cfg name keys) {s : Frame}
    {i : ι} (hs : r.owner s = some i) {cookie : Cookie} {ln : LocalClient}
    (hacc : acceptedFor env r.broker s cookie.1 = some ln) :
    ∃ ten, cfg.keys.tenant (keys i).hash = some ten ∧ ln = ten.entry (name i) s := by
  obtain ⟨hmem, hkey, -⟩ :=
    (h.broker.tablesOk hinj).of_hasLocal hinj (acceptedFor_eq_some.mp hacc)
  obtain ⟨j, ten, hj, hten, hentry⟩ := h.entry ln hmem
  rw [(append_cookie_inj hkey).1] at hj hentry
  rw [hs] at hj
  cases hj
  exact ⟨ten, hten, hentry⟩

omit [DecidableEq ι] in
/-- **A message of a client arrives at the broker.** -/
theorem Ok.hears (hinj : Function.Injective env.xxh32) (h : r.Ok env cfg name keys) {s : Frame}
    {m : List Frame} {i : ι} (hs : r.owner s = some i) (hspeaks : Speaks name keys r.notified i m)
    (hact : r.brokerActs env (.router (s :: m)) = some r') : r'.Ok env cfg name keys := by
  obtain ⟨b, sends, hstep, rfl⟩ := Room.of_brokerActs hact
  have htables := h.broker.tablesOk hinj
  obtain ⟨es, hrun⟩ := h.broker
  have hkeys := hrun.keys
  refine { h with
    broker := ⟨_, hrun.step rfl hstep⟩, entry := fun c hc => ?_, down := fun p hp body hbody => ?_ }
  · obtain hold | ⟨s', m', cook, hash, clientName, rest, ten, he, hm', hten, rfl⟩ :=
      entered_step hstep hc
    · exact h.entry c hold
    · cases he
      obtain ⟨f, hbody⟩ := hspeaks.challok _ hm'
      cases hbody
      rw [CStr.ofBytes_bytes, hkeys] at hten
      exact ⟨i, ten, hs, hten, by rw [CStr.ofBytes_bytes]; rfl⟩
  · obtain hp | hp := List.mem_append.mp hp
    · exact h.down p hp body hbody
    · obtain ⟨dest, d⟩ := p
      obtain ⟨cookie, target, payload, ln, ln', source, hm, hln, hmem, rfl, hdst, hsource, rfl,
        -⟩ := step_delivers hinj htables hspeaks.forward hstep hp hbody
      obtain ⟨q, hq, cookie', rfl, hsent⟩ := hspeaks.send _ hm
      cases hsent
      -- the sender is the owner of the socket, and the receiver that of the other one
      obtain ⟨ten, hten, rfl⟩ := h.accepted hinj hs hln
      obtain ⟨j', ten', hj', hten', hentry'⟩ := h.entry ln' hmem
      refine ⟨j', hj', fun body hbody' => ⟨q, hq, source, ?_, ten, ten', hten, hten', ?_, ?_⟩⟩
      · rw [hbody] at hbody'
        cases hbody'
        rfl
      · rw [hentry', CStr.ofBytes_bytes, hkeys] at hdst
        exact hdst.symm
      · rw [CStr.ofBytes_bytes, hkeys] at hsource
        exact hsource

omit [DecidableEq ι] in
/-- **The broker acts on its own.** -/
theorem Ok.broker_isOwn (h : r.Ok env cfg name keys) {e : Event} (hown : e.isOwn)
    (hen : e.enabled r.broker) (hact : r.brokerActs env e = some r') : r'.Ok env cfg name keys := by
  obtain ⟨b, sends, hstep, rfl⟩ := Room.of_brokerActs hact
  obtain ⟨es, hrun⟩ := h.broker
  refine { h with
    broker := ⟨_, hrun.step hen hstep⟩, entry := fun c hc => ?_, down := fun p hp body hbody => ?_ }
  · obtain hold | ⟨s, m, -, -, -, -, -, rfl, -⟩ := entered_step hstep hc
    · exact h.entry c hold
    · cases hown
  · obtain hp | hp := List.mem_append.mp hp
    · exact h.down p hp body hbody
    · exact absurd hbody (not_data_of_isOwn hown hstep hp)

/-! ### Every run -/

/-- **What a step can be.** -/
inductive Moves (env : Env H) (r : Room ι H) : RoomEvent ι → Room ι H → Prop
  | call {i : ι} {e : ClientEvent} {r' : Room ι H} (hown : e.isOwn)
      (hact : r.clientActs env i e = some r') : Moves env r (.call i e) r'
  | ask {i : ι} {s : Frame} {r' : Room ι H} (hs : r.owner s = none)
      (hact : { r with
        sockid := Function.update r.sockid i (some s)
        owner := Function.update r.owner s (some i) }.clientActs env i .askRegistration = some r') :
      Moves env r (.ask i s) r'
  | toClient {k : Nat} {s : Frame} {m : List Frame} {i : ι} {r' : Room ι H}
      (hk : r.down[k]? = some (s, m)) (hs : r.owner s = some i)
      (hact : { r with down := r.down.eraseIdx k }.clientActs env i (.message m) = some r') :
      Moves env r (.toClient k) r'
  | toBroker {k : Nat} {s : Frame} {m : List Frame} {r' : Room ι H} (hk : r.up[k]? = some (s, m))
      (hact : { r with up := r.up.eraseIdx k }.brokerActs env (.router (s :: m)) = some r') :
      Moves env r (.toBroker k) r'
  | loseUp (k : Nat) : Moves env r (.loseUp k) { r with up := r.up.eraseIdx k }
  | loseDown (k : Nat) : Moves env r (.loseDown k) { r with down := r.down.eraseIdx k }
  | broker {e : Event} {r' : Room ι H} (hown : e.isOwn) (hen : e.enabled r.broker)
      (hact : r.brokerActs env e = some r') : Moves env r (.broker e) r'

theorem moves {e : RoomEvent ι} (hact : r.act env e = some r') : Moves env r e r' := by
  cases e with
  | call i e =>
    simp only [act] at hact
    split at hact
    · next hown => exact .call hown.1 hact
    · cases hact
  | ask i s =>
    simp only [act] at hact
    split at hact
    · next hnew => exact .ask hnew.2.2 hact
    · cases hact
  | toClient k =>
    simp only [act] at hact
    split at hact
    · cases hact
    · next hk =>
      split at hact
      · cases hact
      · next hs =>
        split at hact
        · exact .toClient hk hs hact
        · cases hact
  | toBroker k =>
    simp only [act] at hact
    split at hact
    · cases hact
    · next hk => exact .toBroker hk hact
  | loseUp k =>
    cases hact
    exact .loseUp k
  | loseDown k =>
    cases hact
    exact .loseDown k
  | broker e =>
    simp only [act] at hact
    split at hact
    · next hown => exact .broker hown.1 hown.2 hact
    · cases hact

section

variable (hinj : Function.Injective env.xxh32)
  (hopen : ∀ p n k, env.boxOpenEasyAfternm (env.boxEasyAfternm p n k) n k = some p)
  (henc : ∀ p n k, (env.boxEasyAfternm p n k).length = p.length + macBytes)
  (hinc : ∀ n, (env.nonceIncrement n).length = n.length)

include hinj hopen henc hinc

/-- **Every step keeps the state.** -/
theorem Ok.act (h : r.Ok env cfg name keys) {e : RoomEvent ι} (hact : r.act env e = some r') :
    r'.Ok env cfg name keys := by
  cases moves hact with
  | @call i e _ hown hact =>
    refine h.clientActs hopen henc hinc (fun msg he => ?_) hact
    rw [he] at hown
    cases hown
  | ask hs hact =>
    exact (h.connect hs _).clientActs hopen henc hinc (fun msg he => by cases he) hact
  | @toClient k s m i _ hk hs hact =>
    have hleft := h.leave (List.Subset.refl r.up) (r.down.eraseIdx_sublist k).subset
    refine hleft.clientActs hopen henc hinc (fun msg he body hbody => ?_) hact
    cases he
    obtain ⟨j, hj, hbears⟩ := h.down _ (List.mem_of_getElem? hk) body hbody
    rw [hs] at hj
    cases hj
    exact hbears body hbody
  | @toBroker k s m _ hk hact =>
    have hleft := h.leave (r.up.eraseIdx_sublist k).subset (List.Subset.refl r.down)
    obtain ⟨i, hs, hspeaks⟩ := h.up _ (List.mem_of_getElem? hk)
    exact hleft.hears hinj hs hspeaks hact
  | loseUp k => exact h.leave (r.up.eraseIdx_sublist k).subset (List.Subset.refl r.down)
  | loseDown k => exact h.leave (List.Subset.refl r.up) (r.down.eraseIdx_sublist k).subset
  | broker hown hen hact => exact h.broker_isOwn hown hen hact

theorem Ok.run (h : r.Ok env cfg name keys) {es : List (RoomEvent ι)}
    (hrun : r.run env es = some r') : r'.Ok env cfg name keys := by
  induction es generalizing r with
  | nil =>
    cases hrun
    exact h
  | cons e es ih =>
    obtain ⟨r₁, hact, hrun⟩ := Option.bind_eq_some_iff.mp hrun
    exact ih (h.act hinj hopen henc hinc hact) hrun

end

/-! ### Once for each call -/

/-- The notifications with this frame that are on their way or have arrived. -/
def stock (f : Frame) (r : Room ι H) : Nat :=
  r.up.countP (fun p => sendFrame p.2 = some f) + r.down.countP (fun p => dataFrame p.2 = some f) +
    r.delivered.countP fun d => dataFrame d.msg = some f

/-- The calls of `dd_notify` with this frame. -/
def calls (f : Frame) (r : Room ι H) : Nat := r.notified.countP fun q => q.encrypted = f

end Room

/-- A message leaves its link. -/
theorem countP_of_getElem? {α : Type} {l : List α} {k : Nat} {a : α} (hk : l[k]? = some a)
    (p : α → Prop) [DecidablePred p] :
    l.countP (fun a => p a) = (l.eraseIdx k).countP (fun a => p a) + if p a then 1 else 0 := by
  obtain ⟨hlt, rfl⟩ := List.getElem?_eq_some_iff.mp hk
  rw [← (List.getElem_cons_eraseIdx_perm hlt).countP_eq fun a => p a, List.countP_cons]
  simp only [decide_eq_true_eq]

/-- A `SEND` has the frame of a call of `dd_notify`. -/
theorem countP_sends {env : Env H} {c : DdClient} {e : ClientEvent} {h : Handled}
    (hs : clientStep env c e = some h) (f : Frame) (i : ι) :
    h.sends.countP (fun m => sendFrame m = some f) ≤
      (e.notified env c i).countP fun q => q.encrypted = f := by
  obtain ⟨target, plain, rfl, hsends⟩ | ⟨-, hother⟩ := @clientStep_sends ι _ _ _ _ _ hs
  · have hframe : sendFrame (sentFor env c target plain) =
        some (sealFrame env c plain (notifyKey c.keys target)).2 := by
      rw [sendFrame, sentFor, dealerCmd_ddMsg]
    rw [hsends, ClientEvent.notified, List.countP_singleton]
    split
    · rw [List.countP_singleton, hframe]
      simp
    · exact Nat.zero_le _
  · have hnone : h.sends.countP (fun m => sendFrame m = some f) = 0 := by
      rw [List.countP_eq_zero]
      intro m hm
      obtain ⟨cmd, body, rfl, hcmd⟩ := hother m hm
      have hframe : sendFrame (ddMsg cmd body) = none := by
        rw [sendFrame, dealerCmd_ddMsg]
        split
        · next heq =>
          cases heq
          simp at hcmd
        · rfl
      simp [hframe]
    rw [hnone]
    exact Nat.zero_le _

/-- A call of `on_data` has the frame of the message that arrived. -/
theorem countP_delivered {env : Env H} {c : DdClient} {e : ClientEvent} {h : Handled}
    (hs : clientStep env c e = some h) (f : Frame) (i : ι) :
    (e.delivered i h.calls).countP (fun d => dataFrame d.msg = some f) ≤
      if e.frame = some f then 1 else 0 := by
  obtain hnone | ⟨msg, source, encrypted, rest, data, rfl, hmsg, -, hone⟩ :=
    clientStep_delivered i hs
  · rw [hnone]
    exact Nat.zero_le _
  · rw [hone, List.countP_singleton, ClientEvent.frame]
    simp only [decide_eq_true_eq]
    exact Nat.le_refl _

theorem dataFrame_eq_some {m : List Frame} {f : Frame} (h : dataFrame m = some f) :
    ∃ source rest, dealerCmd m = some (.data, source :: f :: rest) := by
  unfold dataFrame at h
  split at h
  · next source encrypted rest heq =>
    cases h
    exact ⟨source, rest, heq⟩
  · cases h

/-- **A `DATA` has the frame of the `SEND`** it was sent for. -/
theorem countP_data [DecidableEq H] {env : Env H} (hinj : Function.Injective env.xxh32)
    {b b' : DdBroker H} {sends : List Send} (hok : TablesOk env b) {s : Frame} {m : List Frame}
    (hforward : ∀ body, dealerCmd m ≠ some (.forward, body))
    (h : step env b (.router (s :: m)) = .done b' sends) (f : Frame) :
    (sends.filterMap Send.toPeer).countP (fun p => dataFrame p.2 = some f) ≤
      if sendFrame m = some f then 1 else 0 := by
  by_cases hnone : (sends.filterMap Send.toPeer).countP (fun p => dataFrame p.2 = some f) = 0
  · rw [hnone]
    exact Nat.zero_le _
  · obtain ⟨⟨dest, d⟩, hd, hframe⟩ := List.countP_pos_iff.mp (Nat.pos_of_ne_zero hnone)
    obtain ⟨source, rest, hdata⟩ := dataFrame_eq_some (of_decide_eq_true hframe)
    obtain ⟨cookie, target, payload, _, _, _, hm, -, -, -, -, -, hbody, hone⟩ :=
      step_delivers hinj hok hforward h hd hdata
    cases hbody
    rw [hone, sendFrame, hm, if_pos rfl]
    exact List.countP_le_length

/-- The events of a broker alone send no `DATA`. -/
theorem countP_data_isOwn [DecidableEq H] {env : Env H} {b b' : DdBroker H} {sends : List Send}
    {e : Event} (hown : e.isOwn) (h : step env b e = .done b' sends) (f : Frame) :
    (sends.filterMap Send.toPeer).countP (fun p => dataFrame p.2 = some f) = 0 := by
  rw [List.countP_eq_zero]
  rintro ⟨dest, d⟩ hd hframe
  obtain ⟨source, rest, hdata⟩ := dataFrame_eq_some (of_decide_eq_true hframe)
  exact not_data_of_isOwn hown h hd hdata

namespace Room

variable [DecidableEq ι] {env : Env H} {cfg : Config} {name : ι → CStr}
  {keys : ι → DdKeys} {r r' : Room ι H}

/-- **What a client adds**: nothing that no call of `dd_notify` or message stands behind. -/
theorem stock_clientActs {i : ι} {e : ClientEvent} (hact : r.clientActs env i e = some r')
    (f : Frame) : r'.stock f + r.calls f ≤
      r.stock f + r'.calls f + if e.frame = some f then 1 else 0 := by
  obtain ⟨h, hs, rfl⟩ := of_clientActs hact
  have hsent := countP_sends hs f i
  have hdelivered := countP_delivered hs f i
  have hup : ((r.sockid i).toList.flatMap fun s => h.sends.map fun m => (s, m)).countP
      (fun p => sendFrame p.2 = some f) ≤ h.sends.countP fun m => sendFrame m = some f := by
    cases r.sockid i with
    | none => exact Nat.zero_le _
    | some s =>
      rw [Option.toList_some, List.flatMap_singleton, List.countP_map]
      exact Nat.le_refl _
  simp only [stock, calls, List.countP_append]
  omega

variable [DecidableEq H]

/-- **Every step keeps the balance** — as many frames as were sealed, or less. -/
theorem Ok.balance (hinj : Function.Injective env.xxh32) (h : r.Ok env cfg name keys)
    {e : RoomEvent ι} (hact : r.act env e = some r') {f : Frame} (hle : r.stock f ≤ r.calls f) :
    r'.stock f ≤ r'.calls f := by
  have htables := h.broker.tablesOk hinj
  cases moves hact with
  | @call i e _ hown hact =>
    have hframe : e.frame = none := by cases e <;> first | rfl | cases hown
    have hadd := stock_clientActs hact f
    rw [hframe, if_neg (by simp)] at hadd
    omega
  | ask hs hact =>
    have hadd := stock_clientActs hact f
    rw [if_neg (by simp [ClientEvent.frame])] at hadd
    simp only [stock, calls] at hadd hle ⊢
    omega
  | @toClient k s m i _ hk hs hact =>
    have hadd : r'.stock f + r.calls f ≤ stock f { r with down := r.down.eraseIdx k } + r'.calls f +
        if dataFrame m = some f then 1 else 0 := stock_clientActs hact f
    have hleaves : r.down.countP (fun p => dataFrame p.2 = some f) =
        (r.down.eraseIdx k).countP (fun p => dataFrame p.2 = some f) +
          if dataFrame m = some f then 1 else 0 := countP_of_getElem? hk _
    simp only [stock, calls] at hadd hle ⊢
    omega
  | @toBroker k s m _ hk hact =>
    obtain ⟨b, sends, hstep, rfl⟩ := of_brokerActs hact
    obtain ⟨i, hs, hspeaks⟩ := h.up _ (List.mem_of_getElem? hk)
    have hadd := countP_data (m := m) hinj htables hspeaks.forward hstep f
    have hleaves : r.up.countP (fun p => sendFrame p.2 = some f) =
        (r.up.eraseIdx k).countP (fun p => sendFrame p.2 = some f) +
          if sendFrame m = some f then 1 else 0 := countP_of_getElem? hk _
    simp only [stock, calls, List.countP_append] at hle ⊢
    omega
  | loseUp k =>
    have hless := (r.up.eraseIdx_sublist k).countP_le (p := fun p => sendFrame p.2 = some f)
    simp only [stock, calls] at hle ⊢
    omega
  | loseDown k =>
    have hless := (r.down.eraseIdx_sublist k).countP_le (p := fun p => dataFrame p.2 = some f)
    simp only [stock, calls] at hle ⊢
    omega
  | broker hown hen hact =>
    obtain ⟨b, sends, hstep, rfl⟩ := of_brokerActs hact
    have hnone := countP_data_isOwn hown hstep f
    simp only [stock, calls, List.countP_append] at hle ⊢
    omega

theorem balance_run (hinj : Function.Injective env.xxh32)
    (hopen : ∀ p n k, env.boxOpenEasyAfternm (env.boxEasyAfternm p n k) n k = some p)
    (henc : ∀ p n k, (env.boxEasyAfternm p n k).length = p.length + macBytes)
    (hinc : ∀ n, (env.nonceIncrement n).length = n.length) (h : r.Ok env cfg name keys)
    {es : List (RoomEvent ι)} (hrun : r.run env es = some r') (f : Frame)
    (hle : r.stock f ≤ r.calls f) : r'.stock f ≤ r'.calls f := by
  induction es generalizing r with
  | nil =>
    cases hrun
    exact hle
  | cons e es ih =>
    obtain ⟨r₁, hact, hrun⟩ := Option.bind_eq_some_iff.mp hrun
    exact ih (h.act hinj hopen henc hinc hact) hrun (h.balance hinj hact hle)

omit [DecidableEq ι] in
variable (env cfg name keys) in
/-- Nothing was sent and nobody is registered. -/
theorem ok_start (cookie : ι → Cookie) {nonce : ι → Frame}
    (hnonce : ∀ i, (nonce i).length = nonceBytes) :
    (start (fun i => ddNew (name i) (keys i) (cookie i) (nonce i)) (ddBrokerNew H cfg)).Ok env cfg
      name keys where
  ownName _ := rfl
  ownKeys _ := rfl
  nonce := hnonce
  broker := ⟨[], .init⟩
  sockid _ _ h := by cases h
  entry _ hc := absurd hc List.not_mem_nil
  up _ hp := absurd hp List.not_mem_nil
  down _ hp := absurd hp List.not_mem_nil
  sealed _ hq := absurd hq List.not_mem_nil
  delivered _ hd := absurd hd List.not_mem_nil

end Room

/-- **What reaches an application was sent to it** — in every run of a broker and its clients,
behind each call of `on_data` stands a call of `dd_notify` by the client it names, for the client it
is made at, and with its data if the two have the same key; and no frame is delivered more often
than it was sealed. -/
theorem notifications_faithful [DecidableEq ι] [DecidableEq H] {env : Env H}
    (hinj : Function.Injective env.xxh32)
    (hopen : ∀ p n k, env.boxOpenEasyAfternm (env.boxEasyAfternm p n k) n k = some p)
    (henc : ∀ p n k, (env.boxEasyAfternm p n k).length = p.length + macBytes)
    (hinc : ∀ n, (env.nonceIncrement n).length = n.length) (cfg : Config) (name : ι → CStr)
    (keys : ι → DdKeys) (cookie : ι → Cookie) (nonce : ι → Frame)
    (hnonce : ∀ i, (nonce i).length = nonceBytes) (es : List (RoomEvent ι)) (r : Room ι H)
    (hrun : (Room.start (fun i => ddNew (name i) (keys i) (cookie i) (nonce i))
      (ddBrokerNew H cfg)).run env es = some r) :
    (∀ d ∈ r.delivered, ∃ q ∈ r.notified, q.Behind cfg name keys d) ∧
      ∀ f, r.delivered.countP (fun d => dataFrame d.msg = some f) ≤
        r.notified.countP fun q => q.encrypted = f := by
  have hstart := Room.ok_start env cfg name keys cookie hnonce
  refine ⟨(hstart.run hinj hopen henc hinc hrun).delivered, fun f => ?_⟩
  have hbalance := Room.balance_run hinj hopen henc hinc hstart hrun f (Nat.le_refl 0)
  exact (Nat.le_add_left _ _).trans hbalance

/-! ### Two clients -/

/-- The clients `c` and `d` of the tenant `a`, whose key is a byte. -/
def couple (d : Bool) : DdClient :=
  ddNew (if d then text "d" else text "c") ⟨false, text "hashA", [], [7], [], []⟩ (cookieOf 0)
    (List.replicate nonceBytes 0)

/-- Both register, and `c` notifies `d`; meanwhile a `PING` of `d` is lost. -/
def firstNotification : List (RoomEvent Bool) :=
  [.ask false [1], .toBroker 0, .toClient 0, .toBroker 0, .toClient 0, .ask true [2], .toBroker 1,
    .toClient 0, .toBroker 1, .toClient 0, .call false (.notify (text "d") [1, 2, 3]), .loseUp 1,
    .toBroker 1, .toClient 0]

theorem firstNotification_run :
    ((Room.start couple (ddBrokerNew _ macConfig)).run macEnv firstNotification).map (fun r =>
      r.delivered.map fun d => (d.client, d.source, d.data)) =
    some [(true, text "c", [1, 2, 3])] := by
  decide +kernel

/-- The notification of `c` reaches `d`. -/
theorem notifications_faithful_couple : ∃ r : Room Bool (List UInt8),
    (Room.start couple (ddBrokerNew _ macConfig)).run macEnv firstNotification = some r ∧
      r.delivered.map (fun d => (d.client, d.source, d.data)) = [(true, text "c", [1, 2, 3])] ∧
      (∀ d ∈ r.delivered, ∃ q ∈ r.notified, q.Behind macConfig (fun i => (couple i).clientName)
        (fun i => (couple i).keys) d) ∧
      ∀ f, r.delivered.countP (fun d => dataFrame d.msg = some f) ≤
        r.notified.countP fun q => q.encrypted = f := by
  obtain ⟨r, hr, hdelivered⟩ := Option.map_eq_some_iff.mp firstNotification_run
  exact ⟨r, hr, hdelivered, @notifications_faithful _ _ _ _ macEnv Function.injective_id
    (fun _ _ _ => by simp [macEnv]) (fun _ _ _ => by simp [macEnv, Nat.add_comm]) (fun _ => rfl)
    macConfig _ _ (fun _ => cookieOf 0) (fun _ => List.replicate nonceBytes 0)
    (fun _ => List.length_replicate) firstNotification r hr⟩

end DoubleDecker
