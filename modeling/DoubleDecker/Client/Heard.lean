import DoubleDecker.Broker.Scope
import DoubleDecker.Broker.Subscribers
import DoubleDecker.Client.Faithful

/-!
# Client/Heard — what `on_pub` is called with was published and asked for

    dd_publish ──PUB──▸ s_cb_pub ──lookup──▸ PUB ──▸ cb_pub ──▸ on_pub
    dd_subscribe ──SUB──▸ s_cb_sub ──key in the trie

The calls of `dd_subscribe` and `dd_publish` so far are the events of the run.  Whatever the clients
do, in whatever order things happen and whatever the stores have lost, a `PUB` that arrives at a
client bears a publication of a client of the room or of another broker, and the client asked for a
prefix of its topic (`publications_faithful`).
-/

namespace DoubleDecker

open Trie

variable {ι H : Type}

/-! ## The calls behind a publication -/

section

variable (env : Env H) (cfg : Config) (name : ι → CStr) (keys : ι → DdKeys)
  (es : List (RoomEvent ι)) (i : ι)

/-- A topic and the scope string of a call of `dd_subscribe`. -/
def Wanted (entry : CStr × CStr) : Prop :=
  ∃ scope, .call i (.subscribe entry.1 scope) ∈ es ∧ entry.2 = scopestr scope

/-- **A key a client asked for** — that of a call of `dd_subscribe`, composed with the tenant of the
client and the places of the broker. -/
def KeyWanted (key : List UInt8) : Prop :=
  ∃ topic scope ten place, Wanted es i (topic, scope) ∧
    cfg.keys.tenant (keys i).hash = some ten ∧ newscope cfg.scope scope = some place ∧
    key = (subTopic ten.name topic place).bytes

/-- **A call of `dd_publish`**, and the frame it sealed: the message, under a nonce and the key for
the topic. -/
def Issued (topic : CStr) (plain encrypted : Frame) : Prop :=
  .call i (.publish topic plain) ∈ es ∧ fitsInt plain ∧
    ∃ nonce key, nonce.length = nonceBytes ∧ publishKey (keys i) topic = some key ∧
      encrypted = nonce ++ env.boxEasyAfternm plain nonce key

/-- A publication of a client, as the broker shows the topic and the full name of the client. -/
def Publication.IssuedBy (p : Publication) (topic : CStr) (plain : Frame) : Prop :=
  ∃ ten encrypted, cfg.keys.tenant (keys i).hash = some ten ∧
    Issued env keys es i topic plain encrypted ∧ p.payload = [encrypted] ∧
    composeTopic (ddBrokerNew H cfg) (ten.entry (name i) []) topic = (p.topic, p.pubtopic, p.name)

/-- A publication of another broker. -/
def Publication.Relayed (p : Publication) : Prop :=
  ∃ m, (.broker (.subN m) ∈ es ∨ .broker (.subS m) ∈ es) ∧ relayedPublication m = some p

/-- **What a `SUB` and a `PUB` of a client ask for**: a call of its application. -/
structure Requests (m : List Frame) : Prop where
  sub : ∀ body, dealerCmd m = some (.sub, body) → ∃ (cookie : Cookie) (topic scope : CStr),
    Wanted es i (topic, scope) ∧ body = [cookie.1, topic.bytes, scope.bytes]
  pub : ∀ body, dealerCmd m = some (.pub, body) →
    ∃ (cookie : Cookie) (topic : CStr) (plain encrypted : Frame),
      Issued env keys es i topic plain encrypted ∧ body = [cookie.1, topic.bytes, [], encrypted]

/-- **What a `PUB` bears to a client**: a publication somebody made, for a topic the client asked
for. -/
structure Publication.For (p : Publication) : Prop where
  made : (∃ j topic plain, p.IssuedBy env cfg name keys es j topic plain) ∨ p.Relayed es
  wanted : ∃ key, KeyWanted cfg keys es i key ∧ key <+: p.pubtopic.bytes

/-- **The calls behind what is subscribed or on its way** in a room. -/
structure Room.Feeds (r : Room ι H) : Prop where
  sublist : ∀ i, ∀ entry ∈ entries (r.clients i).sublist, Wanted es i entry
  up : ∀ p ∈ r.up, ∃ i, r.owner p.1 = some i ∧ Requests env keys es i p.2
  trie : BackedRoot (fun key s => ∃ i, r.owner s = some i ∧ KeyWanted cfg keys es i key)
    r.broker.topicsTrie
  down : ∀ p ∈ r.down, ∀ body, dealerCmd p.2 = some (.pub, body) →
    ∃ i, r.owner p.1 = some i ∧ ∃ pub : Publication, p.2 = pub.msg ∧
      pub.For env cfg name keys es i

end

section

variable {env : Env H} {cfg : Config} {name : ι → CStr} {keys : ι → DdKeys}
  {es es' : List (RoomEvent ι)} {i : ι}

theorem Wanted.mono {entry : CStr × CStr} (h : Wanted es i entry) (hsub : es ⊆ es') :
    Wanted es' i entry := by
  obtain ⟨scope, hcall, heq⟩ := h
  exact ⟨scope, hsub hcall, heq⟩

theorem KeyWanted.mono {key : List UInt8} (h : KeyWanted cfg keys es i key) (hsub : es ⊆ es') :
    KeyWanted cfg keys es' i key := by
  obtain ⟨topic, scope, ten, place, hwanted, hrest⟩ := h
  exact ⟨topic, scope, ten, place, hwanted.mono hsub, hrest⟩

theorem Issued.mono {topic : CStr} {plain encrypted : Frame}
    (h : Issued env keys es i topic plain encrypted) (hsub : es ⊆ es') :
    Issued env keys es' i topic plain encrypted :=
  ⟨hsub h.1, h.2⟩

theorem Requests.mono {m : List Frame} (h : Requests env keys es i m) (hsub : es ⊆ es') :
    Requests env keys es' i m where
  sub body hbody := by
    obtain ⟨cookie, topic, scope, hwanted, heq⟩ := h.sub body hbody
    exact ⟨cookie, topic, scope, hwanted.mono hsub, heq⟩
  pub body hbody := by
    obtain ⟨cookie, topic, plain, encrypted, hissued, heq⟩ := h.pub body hbody
    exact ⟨cookie, topic, plain, encrypted, hissued.mono hsub, heq⟩

theorem Publication.For.mono {p : Publication} (h : p.For env cfg name keys es i)
    (hsub : es ⊆ es') : p.For env cfg name keys es' i where
  made := by
    obtain ⟨j, topic, plain, ten, encrypted, hten, hissued, hrest⟩ | ⟨m, hm, hrelayed⟩ := h.made
    · exact .inl ⟨j, topic, plain, ten, encrypted, hten, hissued.mono hsub, hrest⟩
    · exact .inr ⟨m, hm.imp (@hsub _) (@hsub _), hrelayed⟩
  wanted := by
    obtain ⟨key, hkey, hprefix⟩ := h.wanted
    exact ⟨key, hkey.mono hsub, hprefix⟩

theorem Room.Feeds.mono {r : Room ι H} (h : r.Feeds env cfg name keys es) (hsub : es ⊆ es') :
    r.Feeds env cfg name keys es' where
  sublist j entry hentry := (h.sublist j entry hentry).mono hsub
  up p hp := by
    obtain ⟨j, hj, hrequests⟩ := h.up p hp
    exact ⟨j, hj, hrequests.mono hsub⟩
  trie := h.trie.mono fun _ _ ⟨j, hj, hkey⟩ => ⟨j, hj, hkey.mono hsub⟩
  down p hp body hbody := by
    obtain ⟨j, hj, pub, hmsg, hfor⟩ := h.down p hp body hbody
    exact ⟨j, hj, pub, hmsg, hfor.mono hsub⟩

/-! ## What a client keeps and asks for -/

/-- A message that is no `SUB` and no `PUB`. -/
theorem requests_of_cmd {cmd : Cmd} (hsub : cmd ≠ .sub) (hpub : cmd ≠ .pub) (body : List Frame) :
    Requests env keys es i (ddMsg cmd body) where
  sub body' h := by
    rw [dealerCmd_ddMsg] at h
    cases h
    exact absurd rfl hsub
  pub body' h := by
    rw [dealerCmd_ddMsg] at h
    cases h
    exact absurd rfl hpub

theorem requests_sub {topic scope : CStr} (h : Wanted es i (topic, scope)) (cookie : Cookie) :
    Requests env keys es i (ddMsg .sub [cookie.1, topic.bytes, scope.bytes]) where
  sub body' heq := by
    rw [dealerCmd_ddMsg] at heq
    cases heq
    exact ⟨cookie, topic, scope, h, rfl⟩
  pub body' heq := by
    rw [dealerCmd_ddMsg] at heq
    cases heq

theorem requests_pub {topic : CStr} {plain encrypted : Frame}
    (h : Issued env keys es i topic plain encrypted) (cookie : Cookie) :
    Requests env keys es i (ddMsg .pub [cookie.1, topic.bytes, [], encrypted]) where
  sub body' heq := by
    rw [dealerCmd_ddMsg] at heq
    cases heq
  pub body' heq := by
    rw [dealerCmd_ddMsg] at heq
    cases heq
    exact ⟨cookie, topic, plain, encrypted, h, rfl⟩

/-- **A call on the list** adds an entry it was called for at the most. -/
theorem mem_entries_exec {l : Zlistx Ddtopic} {call : SublistCall} {entry : CStr × CStr}
    (h : entry ∈ entries (call.exec l)) :
    entry ∈ entries l ∨ ∃ active, call = .add entry.1 entry.2 active := by
  cases call with
  | add topic scope active =>
    rw [SublistCall.exec, entries_sublistAdd] at h
    split at h
    · exact .inl h
    · obtain rfl | h := List.mem_cons.mp h
      · exact .inr ⟨active, rfl⟩
      · exact .inl h
  | delete topic scope =>
    left
    rw [SublistCall.exec] at h
    obtain ⟨-, hsame⟩ | ⟨u, item, v, hitems, -, -, hleft, -⟩ := @sublistDelete_cases l topic
    · rwa [hsame] at h
    · rw [entries, hleft] at h
      rw [entries, hitems]
      exact List.map_subset _
        (List.Sublist.append_left (List.sublist_cons_self item v) u).subset h
  | activate topic scope =>
    left
    rwa [SublistCall.exec, sublistActivate, entries_pass fun item => by split <;> rfl] at h
  | deactivateAll =>
    left
    rw [SublistCall.exec, sublistDeactivateAll] at h
    rwa [entries_pass fun _ => by rfl] at h
  | resubscribe cookie => exact .inl (@entries_pass l id (fun _ => rfl) ▸ h)

/-- The call on the list that adds an entry is a call of `dd_subscribe`. -/
theorem listCall_eq_add {c : DdClient} {e : ClientEvent} {topic scope : CStr} {active : Bool}
    (h : listCall c e = some (.add topic scope active)) :
    ∃ s, e = .subscribe topic s ∧ scope = scopestr s := by
  cases e with
  | subscribe t s =>
    cases h
    exact ⟨s, rfl, rfl⟩
  | message msg =>
    obtain ⟨⟨cmd, body⟩, -, hbody⟩ := Option.bind_eq_some_iff.mp h
    simp only [cmdCall] at hbody
    split at hbody
    · cases hbody
    · obtain ⟨_, -, heq⟩ := Option.map_eq_some_iff.mp hbody
      cases heq
    · cases hbody
  | heartbeat =>
    rw [listCall] at h
    split at h <;> cases h
  | unsubscribe | publish | notify | askRegistration | ping => cases h

variable {c : DdClient} {e : ClientEvent} {h : Handled}

/-- **A client lists what it wanted.** -/
theorem wanted_of_clientStep (hs : clientStep env c e = some h)
    (hlist : ∀ entry ∈ entries c.sublist, Wanted es i entry) (hcall : e.isOwn → .call i e ∈ es) :
    ∀ entry ∈ entries h.self.sublist, Wanted es i entry := by
  intro entry hentry
  rw [clientStep_sublist hs] at hentry
  cases hlc : listCall c e with
  | none =>
    rw [hlc] at hentry
    exact hlist entry hentry
  | some call =>
    rw [hlc] at hentry
    obtain hold | ⟨active, rfl⟩ := mem_entries_exec hentry
    · exact hlist entry hold
    · obtain ⟨s, rfl, hscope⟩ := listCall_eq_add hlc
      exact ⟨s, hcall rfl, hscope⟩

/-- **A client asks for what its application called for**, now or when it was not registered. -/
theorem requests_of_clientStep (hinc : ∀ n, (env.nonceIncrement n).length = n.length)
    (hs : clientStep env c e = some h) (hkeys : c.keys = keys i)
    (hnonce : c.nonce.length = nonceBytes) (hlist : ∀ entry ∈ entries c.sublist, Wanted es i entry)
    (hcall : e.isOwn → .call i e ∈ es) {m : List Frame} (hm : m ∈ h.sends) :
    Requests env keys es i m := by
  cases clientStep_clientSends hs hm with
  | subscribe topic scope => exact requests_sub ⟨scope, hcall rfl, rfl⟩ c.cookie
  | publish hkey hfits =>
    exact requests_pub ⟨hcall rfl, hfits, _, _, (hinc _).trans hnonce, hkeys ▸ hkey, rfl⟩ c.cookie
  | resubscribe msg cookie hitem => exact requests_sub (hlist _ (List.mem_map_of_mem hitem)) cookie
  | _ => exact requests_of_cmd (by decide) (by decide) _

/-- **What `on_pub` is called with** — the source and the topic of a `PUB` and its frame, opened
under the key for this source. -/
theorem onPub_of_clientStep {m : List Frame} (hs : clientStep env c (.message m) = some h)
    {source topic : CStr} {data : Frame} (hcall : Call.onPub source topic data ∈ h.calls) :
    ∃ sourceFrame topicFrame encrypted rest,
      dealerCmd m = some (.pub, sourceFrame :: topicFrame :: encrypted :: rest) ∧
      source = CStr.ofBytes sourceFrame ∧ topic = CStr.ofBytes topicFrame ∧
      openFrame env encrypted (sourceKey c.keys source) = some (some data) := by
  rw [clientStep] at hs
  cases hcmd : dealerCmd m with
  | none =>
    rw [sOnClientMsg_of_dealerCmd_none hcmd hs] at hcall
    cases hcall
  | some p =>
    obtain ⟨cmd, body⟩ := p
    rw [sOnClientMsg_of_dealerCmd hcmd] at hs
    cases cmd_of_mem_calls hs hcall
    simp only [onClientCmd, cbPub] at hs
    split at hs
    · obtain ⟨o, ho, rfl⟩ := Option.map_eq_some_iff.mp hs
      obtain ⟨data', hdata, heq⟩ := List.mem_map.mp hcall
      cases heq
      exact ⟨_, _, _, _, rfl, rfl, rfl, ho.trans (congrArg some (Option.mem_toList.mp hdata))⟩
    · cases hs

end

/-! ## A step of the room -/

/-- The broker composes topics as it did when it was new. -/
theorem Reachable.composeTopic [DecidableEq H] {env : Env H} {cfg : Config} {b : DdBroker H}
    (h : Reachable env cfg b) (ln : LocalClient) (topic : CStr) :
    composeTopic b ln topic = DoubleDecker.composeTopic (ddBrokerNew H cfg) ln topic := by
  obtain ⟨es, hrun⟩ := h
  unfold DoubleDecker.composeTopic
  rw [hrun.brokerScope]
  rfl

namespace Room

variable [DecidableEq ι] [DecidableEq H] {env : Env H} {cfg : Config} {name : ι → CStr}
  {keys : ι → DdKeys} {es : List (RoomEvent ι)} {r r' : Room ι H}

omit [DecidableEq ι] [DecidableEq H] in
/-- Messages that get lost, or leave their link. -/
theorem Feeds.leave (h : r.Feeds env cfg name keys es) {up down : List (Frame × List Frame)}
    (hup : up ⊆ r.up) (hdown : down ⊆ r.down) :
    Feeds env cfg name keys es { r with up, down } :=
  { h with
    up := fun p hp => h.up p (hup hp)
    down := fun p hp => h.down p (hdown hp) }

omit [DecidableEq H] in
/-- **A client opens a socket** that nobody had. -/
theorem Feeds.connect (h : r.Feeds env cfg name keys es) {s : Frame} (hs : r.owner s = none)
    (i : ι) : Feeds env cfg name keys es { r with
      sockid := Function.update r.sockid i (some s)
      owner := Function.update r.owner s (some i) } where
  sublist := h.sublist
  up p hp := by
    obtain ⟨j, hj, hrequests⟩ := h.up p hp
    exact ⟨j, owner_update hs hj, hrequests⟩
  trie := h.trie.mono fun _ _ ⟨j, hj, hkey⟩ => ⟨j, owner_update hs hj, hkey⟩
  down p hp body hbody := by
    obtain ⟨j, hj, hpub⟩ := h.down p hp body hbody
    exact ⟨j, owner_update hs hj, hpub⟩

/-- **A client acts.** -/
theorem Feeds.clientActs (hinc : ∀ n, (env.nonceIncrement n).length = n.length)
    (hok : r.Ok env cfg name keys) (h : r.Feeds env cfg name keys es) {i : ι} {e : ClientEvent}
    (hcall : e.isOwn → .call i e ∈ es) (hact : r.clientActs env i e = some r') :
    r'.Feeds env cfg name keys es := by
  obtain ⟨handled, hs, rfl⟩ := of_clientActs hact
  refine { h with sublist := fun j => ?_, up := fun p hp => ?_ }
  · simp only [Function.update_apply]
    split
    · next heq => exact heq ▸ wanted_of_clientStep hs (h.sublist i) hcall
    · exact h.sublist j
  · obtain hp | hp := List.mem_append.mp hp
    · exact h.up p hp
    · obtain ⟨s, hsock, hp⟩ := List.mem_flatMap.mp hp
      obtain ⟨m, hm, rfl⟩ := List.mem_map.mp hp
      exact ⟨i, hok.sockid i s (Option.mem_toList.mp hsock),
        requests_of_clientStep hinc hs (hok.ownKeys i) (hok.nonce i) (h.sublist i) hcall hm⟩

section

variable (hinj : Function.Injective env.xxh32) (hok : r.Ok env cfg name keys) {s : Frame}
  {m : List Frame} {i : ι} (hs : r.owner s = some i)

include hinj hok hs

omit [DecidableEq ι] in
/-- **A `SUB` that is taken** was wanted. -/
theorem Ok.keyWanted (hrequests : Requests env keys es i m) {ln : LocalClient} {s' : Frame}
    {key : CStr} (hreq : request env r.broker (.router (s :: m)) = .sub ln s' key) :
    s' = s ∧ KeyWanted cfg keys es i key.bytes := by
  obtain ⟨msg, cmd, cookie, rest, topic, scope, he, hmsg, hacc, hsub, ⟨rfl, -⟩ | ⟨-, hr⟩⟩ :=
    exists_of_subscription hreq (.inl rfl)
  · cases he
    rw [routerCmd_cons] at hmsg
    obtain ⟨⟨cmd, body⟩, hm, heq⟩ := Option.map_eq_some_iff.mp hmsg
    cases heq
    obtain ⟨cookie, topic', scope', hwanted, heq⟩ := hrequests.sub _ hm
    cases heq
    obtain ⟨ten, hten, rfl⟩ := hok.accepted hinj hs hacc
    obtain ⟨es', hrun⟩ := hok.broker
    simp only [subRequest, zmsgPopstr, CStr.ofBytes_bytes, hrun.scope] at hsub
    split at hsub
    · cases hsub
    · obtain ⟨place, hplace, heq⟩ := Option.map_eq_some_iff.mp hsub
      cases heq
      exact ⟨rfl, _, _, ten, place, hwanted, hten, hplace, rfl⟩
  · cases hr

omit [DecidableEq ι] in
/-- **A `PUB` that is taken** was issued. -/
theorem Ok.issuedBy (hrequests : Requests env keys es i m) {p : Publication}
    (hp : publication env r.broker (.router (s :: m)) = some p) :
    ∃ topic plain, p.IssuedBy env cfg name keys es i topic plain := by
  simp only [publication] at hp
  split at hp
  · next source cookie topicFrame rest hmsg =>
    obtain ⟨ln, hacc, rfl⟩ := Option.map_eq_some_iff.mp hp
    rw [routerCmd_cons] at hmsg
    obtain ⟨⟨cmd, body⟩, hm, heq⟩ := Option.map_eq_some_iff.mp hmsg
    cases heq
    obtain ⟨cookie, topic, plain, encrypted, hissued, heq⟩ := hrequests.pub _ hm
    cases heq
    obtain ⟨ten, hten, rfl⟩ := hok.accepted hinj hs hacc
    refine ⟨topic, plain, ten, encrypted, hten, hissued, rfl, ?_⟩
    rw [ownPublication, CStr.ofBytes_bytes, hok.broker.composeTopic]
    rfl
  · cases hp

end

omit [DecidableEq ι] in
/-- **What is sent for a publication** is for clients that asked for it. -/
theorem Feeds.sends (h : r.Feeds env cfg name keys es) {e : Event} {b : DdBroker H}
    {sends : List Send} (hstep : step env r.broker e = .done b sends)
    (hmade : ∀ p : Publication, publication env r.broker e = some p →
      (∃ j topic plain, p.IssuedBy env cfg name keys es j topic plain) ∨ p.Relayed es)
    {dest : Frame} {d body : List Frame} (hd : (dest, d) ∈ sends.filterMap Send.toPeer)
    (hpub : dealerCmd d = some (.pub, body)) : ∃ i, r.owner dest = some i ∧
      ∃ pub : Publication, d = pub.msg ∧ pub.For env cfg name keys es i := by
  obtain ⟨x, hx, hpeer⟩ := List.mem_filterMap.mp hd
  cases x with
  | rsock dest' d' =>
    cases hpeer
    obtain ⟨p, socks, hp, hsocks, hdest, rfl⟩ :=
      pub_of_step (by rw [hstep]; exact hx) (cmd_of_dealerCmd hpub _).1
    obtain ⟨key, hprefix, i, hi, hkey⟩ := nnTrieTree_backed h.trie hsocks hdest
    exact ⟨i, hi, p, rfl, hmade p hp, key, hkey, hprefix⟩
  | _ => cases hpeer

omit [DecidableEq ι] in
/-- **A message of a client arrives at the broker.** -/
theorem Feeds.hears (hinj : Function.Injective env.xxh32) (hok : r.Ok env cfg name keys)
    (h : r.Feeds env cfg name keys es) {s : Frame} {m : List Frame} {i : ι}
    (hs : r.owner s = some i) (hrequests : Requests env keys es i m)
    (hact : r.brokerActs env (.router (s :: m)) = some r') : r'.Feeds env cfg name keys es := by
  obtain ⟨b, sends, hstep, rfl⟩ := of_brokerActs hact
  refine { h with trie := ?_, down := fun p hp body hbody => ?_ }
  · refine step_backed hok.broker.tight h.trie (fun ln s' key hreq => ?_) hstep
    obtain ⟨rfl, hkey⟩ := hok.keyWanted hinj hs hrequests hreq
    exact ⟨i, hs, hkey⟩
  · obtain hp | hp := List.mem_append.mp hp
    · exact h.down p hp body hbody
    · refine h.sends hstep (fun pub hpub => .inl ?_) hp hbody
      exact ⟨i, hok.issuedBy hinj hs hrequests hpub⟩

omit [DecidableEq ι] in
/-- **The broker acts on its own**, or for a publication of another one. -/
theorem Feeds.broker_isOwn (hok : r.Ok env cfg name keys) (h : r.Feeds env cfg name keys es)
    {e : Event} (hown : e.isOwn) (he : .broker e ∈ es) (hact : r.brokerActs env e = some r') :
    r'.Feeds env cfg name keys es := by
  obtain ⟨b, sends, hstep, rfl⟩ := of_brokerActs hact
  refine { h with trie := ?_, down := fun p hp body hbody => ?_ }
  · refine step_backed hok.broker.tight h.trie (fun ln s' key hreq => ?_) hstep
    obtain ⟨_, _, _, _, _, _, rfl, -⟩ := exists_of_subscription hreq (.inl rfl)
    cases hown
  · obtain hp | hp := List.mem_append.mp hp
    · exact h.down p hp body hbody
    · refine h.sends hstep (fun pub hpub => .inr ?_) hp hbody
      cases e with
      | subN m => exact ⟨m, .inl he, hpub⟩
      | subS m => exact ⟨m, .inr he, hpub⟩
      | router | dealer => cases hown
      | pubN | pubS | register | heartbeat | checkCliTimeout | checkBrTimeout => cases hpub

/-! ### Every run -/

section

variable (hinj : Function.Injective env.xxh32)
  (hopen : ∀ p n k, env.boxOpenEasyAfternm (env.boxEasyAfternm p n k) n k = some p)
  (henc : ∀ p n k, (env.boxEasyAfternm p n k).length = p.length + macBytes)
  (hinc : ∀ n, (env.nonceIncrement n).length = n.length)

include hinj hinc

/-- **Every step keeps the calls behind it.** -/
theorem Feeds.act (hok : r.Ok env cfg name keys) (h : r.Feeds env cfg name keys es)
    {e : RoomEvent ι} (hact : r.act env e = some r') : r'.Feeds env cfg name keys (es ++ [e]) := by
  have hnow := h.mono (List.subset_append_left es [e])
  have hlast : e ∈ es ++ [e] := List.mem_append_right _ (List.mem_singleton_self e)
  cases moves hact with
  | call hown hact => exact hnow.clientActs hinc hok (fun _ => hlast) hact
  | @ask i s _ hs hact =>
    exact (hnow.connect hs i).clientActs hinc (hok.connect hs i) (fun hown => by cases hown) hact
  | @toClient k s m i _ hk hs hact =>
    have hdown := (r.down.eraseIdx_sublist k).subset
    exact (hnow.leave (List.Subset.refl r.up) hdown).clientActs hinc
      (hok.leave (List.Subset.refl r.up) hdown) (fun hown => by cases hown) hact
  | @toBroker k s m _ hk hact =>
    have hup := (r.up.eraseIdx_sublist k).subset
    obtain ⟨i, hs, hrequests⟩ := hnow.up _ (List.mem_of_getElem? hk)
    exact (hnow.leave hup (List.Subset.refl r.down)).hears hinj
      (hok.leave hup (List.Subset.refl r.down)) hs hrequests hact
  | loseUp k => exact hnow.leave (r.up.eraseIdx_sublist k).subset (List.Subset.refl r.down)
  | loseDown k => exact hnow.leave (List.Subset.refl r.up) (r.down.eraseIdx_sublist k).subset
  | broker hown hen hact => exact hnow.broker_isOwn hok hown hlast hact

include hopen henc

theorem Feeds.run (hok : r.Ok env cfg name keys) (h : r.Feeds env cfg name keys es)
    {es' : List (RoomEvent ι)} (hrun : r.run env es' = some r') :
    r'.Feeds env cfg name keys (es ++ es') := by
  induction es' generalizing r es with
  | nil =>
    cases hrun
    rwa [List.append_nil]
  | cons e es' ih =>
    obtain ⟨r₁, hact, hrun⟩ := Option.bind_eq_some_iff.mp hrun
    have hrest := ih (hok.act hinj hopen henc hinc hact) (h.act hinj hinc hok hact) hrun
    rwa [List.append_assoc] at hrest

end

omit [DecidableEq ι] [DecidableEq H] in
variable (env cfg name keys) in
/-- Nobody called for anything. -/
theorem feeds_start (cookie : ι → Cookie) (nonce : ι → Frame) :
    (start (fun i => ddNew (name i) (keys i) (cookie i) (nonce i)) (ddBrokerNew H cfg)).Feeds env
      cfg name keys [] where
  sublist _ _ hentry := absurd hentry List.not_mem_nil
  up _ hp := absurd hp List.not_mem_nil
  trie := backedRoot_none
  down _ hp := absurd hp List.not_mem_nil

end Room

/-- **What reaches `on_pub` was published and asked for** — in every run of a broker and its
clients, a call of `on_pub` for whatever `PUB` arrives next shows the source and the topic of a
publication of a client or of another broker, whose topic begins with a key the client called
`dd_subscribe` for; and it has the message of the call of `dd_publish` if the two ends have the same
key. -/
theorem publications_faithful [DecidableEq ι] [DecidableEq H] {env : Env H}
    (hinj : Function.Injective env.xxh32)
    (hopen : ∀ p n k, env.boxOpenEasyAfternm (env.boxEasyAfternm p n k) n k = some p)
    (henc : ∀ p n k, (env.boxEasyAfternm p n k).length = p.length + macBytes)
    (hinc : ∀ n, (env.nonceIncrement n).length = n.length) (cfg : Config) (name : ι → CStr)
    (keys : ι → DdKeys) (cookie : ι → Cookie) (nonce : ι → Frame)
    (hnonce : ∀ i, (nonce i).length = nonceBytes) (es : List (RoomEvent ι)) (r : Room ι H)
    (hrun : (Room.start (fun i => ddNew (name i) (keys i) (cookie i) (nonce i))
      (ddBrokerNew H cfg)).run env es = some r) {s : Frame} {m : List Frame} (hm : (s, m) ∈ r.down)
    {i : ι} (hi : r.owner s = some i) {h : Handled}
    (hs : clientStep env (r.clients i) (.message m) = some h) {source topic : CStr} {data : Frame}
    (hcall : Call.onPub source topic data ∈ h.calls) :
    ∃ p : Publication, p.name = source ∧ p.topic = topic ∧ p.For env cfg name keys es i ∧
      ∀ j t plain, p.IssuedBy env cfg name keys es j t plain →
        publishKey (keys j) t = some (sourceKey (keys i) source) → data = plain := by
  have hstart := Room.ok_start env cfg name keys cookie hnonce
  have hok := hstart.run hinj hopen henc hinc hrun
  have hfeeds := (Room.feeds_start env cfg name keys cookie nonce).run hinj hopen henc hinc
    hstart hrun
  obtain ⟨sourceFrame, topicFrame, encrypted, rest, hpub, rfl, rfl, hopened⟩ :=
    onPub_of_clientStep hs hcall
  obtain ⟨j, hj, p, rfl, hfor⟩ := hfeeds.down _ hm _ hpub
  rw [hi] at hj
  cases hj
  simp only [Publication.msg, dealerCmd_ddMsg, Option.some.injEq, Prod.mk.injEq, List.cons.injEq,
    true_and] at hpub
  obtain ⟨rfl, rfl, hpayload⟩ := hpub
  refine ⟨p, (CStr.ofBytes_bytes _).symm, (CStr.ofBytes_bytes _).symm, hfor, ?_⟩
  rintro j t plain ⟨ten, encrypted', -, ⟨-, hfits, nonce', key, hlength, hkey, rfl⟩, hpayload', -⟩
    hsame
  rw [hpayload'] at hpayload
  cases hpayload
  rw [hkey] at hsame
  cases hsame
  rw [hok.ownKeys, openFrame_sealed hopen hlength] at hopened
  · exact (Option.some.inj (Option.some.inj hopened)).symm
  · rw [henc]
    rw [fitsInt, decide_eq_true_eq] at hfits
    omega

/-! ### A subscriber -/

/-- Both register, `d` subscribes to `y` everywhere, and `c` publishes it. -/
def firstPublication : List (RoomEvent Bool) :=
  [.ask false [1], .toBroker 0, .toClient 0, .toBroker 0, .toClient 0, .ask true [2], .toBroker 1,
    .toClient 0, .toBroker 1, .toClient 0, .call true (.subscribe (text "y") (text "all")),
    .call false (.publish (text "y") [1, 2, 3]), .toBroker 2, .toClient 0, .toBroker 2]

/-- The `PUB` of `c` on its way to `d`. -/
def pubForD : List Frame :=
  ddMsg .pub [(text "c").bytes, (text "y").bytes,
    List.replicate nonceBytes 0 ++ (List.replicate macBytes 0 ++ [1, 2, 3])]

theorem firstPublication_run :
    ((Room.start couple (ddBrokerNew _ macConfig)).run macEnv firstPublication).map (fun r =>
      (decide (([2], pubForD) ∈ r.down), r.owner [2],
        (clientStep macEnv (r.clients true) (.message pubForD)).map Handled.calls)) =
    some (true, some true, some [.onPub (text "c") (text "y") [1, 2, 3]]) := by
  decide +kernel

/-- The publication of `c` reaches `d`, who asked for it. -/
theorem publications_faithful_couple : ∃ (r : Room Bool (List UInt8)) (p : Publication),
    (Room.start couple (ddBrokerNew _ macConfig)).run macEnv firstPublication = some r ∧
      p.name = text "c" ∧ p.topic = text "y" ∧
      p.For macEnv macConfig (fun i => (couple i).clientName) (fun i => (couple i).keys)
        firstPublication true := by
  obtain ⟨r, hr, hfacts⟩ := Option.map_eq_some_iff.mp firstPublication_run
  obtain ⟨hm, hfacts⟩ := Prod.mk.inj hfacts
  obtain ⟨howner, hcalls⟩ := Prod.mk.inj hfacts
  obtain ⟨h, hs, hcall⟩ := Option.map_eq_some_iff.mp hcalls
  obtain ⟨p, hname, htopic, hfor, -⟩ := @publications_faithful _ _ _ _ macEnv Function.injective_id
    (fun _ _ _ => by simp [macEnv]) (fun _ _ _ => by simp [macEnv, Nat.add_comm]) (fun _ => rfl)
    macConfig (fun i => (couple i).clientName) (fun i => (couple i).keys) (fun _ => cookieOf 0)
    (fun _ => List.replicate nonceBytes 0) (fun _ => List.length_replicate) firstPublication r hr
    _ _ (of_decide_eq_true hm) _ howner _ hs _ _ _ (hcall ▸ List.mem_singleton_self _)
  exact ⟨r, p, hr, hname, htopic, hfor⟩

end DoubleDecker
