import DoubleDecker.Broker.Sends
import DoubleDecker.Broker.Stores

/-!
# Broker/Isolation — publications stay with their tenant

A `PUB` goes to the socket ids the trie holds under a prefix of the composed topic.  Every key in
the stores starts with the tenant of a client registered under the socket id (`SubsOwned`), and the
composed topic with the tenant of the publication, so the two tenants are the same
(`publication_isolation`).
-/

namespace DoubleDecker

open Trie

variable {H : Type} [DecidableEq H] {env : Env H}

/-! ## The tenant of a key -/

/-- **Plain tenant names** — without a dot, and `tenant.` fits the 256-byte buffers. -/
structure DdBrokerKeys.Plain (k : DdBrokerKeys) : Prop where
  dot_free : ∀ hash ten, k.tenant hash = some ten → dot ∉ ten.name.bytes
  fits : ∀ hash ten, k.tenant hash = some ten → ten.name.length < 255

/-- The key starts with the tenant and a dot. -/
def Owned (tenant key : CStr) : Prop := tenant.bytes ++ [dot] <+: key.bytes

theorem prefix_truncate {p : List UInt8} {s : CStr} {n : Nat} (hp : p <+: s.bytes)
    (hn : p.length ≤ n) : p <+: (s.truncate n).bytes := by
  rw [CStr.bytes_truncate]
  exact List.prefix_take_iff.mpr ⟨hp, hn⟩

theorem owned_joined {tenant : CStr} (hfits : tenant.length < 255) (name : CStr) :
    Owned tenant (joined 255 tenant name) := by
  refine prefix_truncate ⟨name.bytes, ?_⟩ ?_
  · rfl
  · rw [List.length_append, List.length_singleton]
    exact hfits

theorem owned_subTopic {tenant : CStr} (hfits : tenant.length < 255) (topic scope : CStr) :
    Owned tenant (subTopic tenant topic scope) := by
  refine prefix_truncate ⟨topic.bytes ++ scope.bytes, ?_⟩ ?_
  · simp only [CStr.bytes_append, List.append_assoc]
    rfl
  · rw [List.length_append, List.length_singleton]
    exact hfits

/-- The tenant of a key is what stands before its first dot. -/
theorem Owned.before {tenant key : CStr} (h : Owned tenant key) (hdot : dot ∉ tenant.bytes) :
    key.before dot = tenant := by
  obtain ⟨r, hr⟩ := h
  rw [List.append_assoc] at hr
  exact CStr.before_append hdot hr.symm

theorem Owned.mono {tenant key topic : CStr} (h : Owned tenant key)
    (hp : key.bytes <+: topic.bytes) : Owned tenant topic := h.trans hp

/-- `public.` without its last byte, when that is a `$`. -/
theorem publicDot_prefix_dropLast {topic : CStr} (h : topic.startsWith publicDot)
    (hlast : topic.bytes.getLast? = some 36) :
    publicDot.bytes <+: (topic.truncate (topic.length - 1)).bytes := by
  have hp := CStr.startsWith_iff.mp h
  refine prefix_truncate hp ?_
  have hle : publicDot.bytes.length ≤ topic.bytes.length := hp.length_le
  obtain heq | hlt := Nat.eq_or_lt_of_le hle
  · rw [← hp.eq_of_length heq] at hlast
    exact absurd hlast (by decide)
  · exact Nat.le_pred_of_lt hlt

/-- The tenant a topic of a client is published under. -/
def topicTenant (ln : LocalClient) (topic : CStr) : CStr :=
  if topic.startsWith publicDot then publicName else ln.tenant

omit [DecidableEq H] in
/-- **The composed topic starts with the tenant of the publication**: `public` for a public topic,
the publisher's tenant for any other. -/
theorem owned_composeTopic (self : DdBroker H) {ln : LocalClient} (topic : CStr)
    (hfits : ln.tenant.length < 255) :
    Owned (topicTenant ln topic) (composeTopic self ln topic).2.1 := by
  unfold composeTopic topicTenant
  simp only
  by_cases hpub : topic.startsWith publicDot
  · rw [if_pos hpub, if_pos hpub]
    show publicDot.bytes <+: _
    by_cases hexact : topic.bytes.getLast? = some 36
    · simp only [hexact, decide_true, if_true]
      exact publicDot_prefix_dropLast hpub hexact
    · simp only [hexact, decide_false, Bool.false_eq_true, if_false]
      refine prefix_truncate ((CStr.startsWith_iff.mp hpub).trans ?_) (by decide)
      exact List.prefix_append _ _
  · rw [if_neg hpub, if_neg hpub]
    exact owned_joined hfits _

omit [DecidableEq H] in
/-- The tenant of the composed topic stands before its first dot. -/
theorem before_composeTopic (self : DdBroker H) {ln : LocalClient} (topic : CStr)
    (hdot : dot ∉ ln.tenant.bytes) (hfits : ln.tenant.length < 255) :
    (composeTopic self ln topic).2.1.before dot = topicTenant ln topic := by
  refine (owned_composeTopic self topic hfits).before ?_
  unfold topicTenant
  split
  · decide
  · exact hdot

/-! ## Every subscription has an owner -/

/-- **Every topic of a socket id belongs to a client registered under it.** -/
def SubsOwned {H : Type} (b : DdBroker H) : Prop :=
  ∀ s, ∀ t ∈ topicsOf b s, ∃ c ∈ b.lclCliHt.nodes, c.sockid = s ∧ Owned c.tenant t

omit [DecidableEq H] in
theorem SameTables.subsOwned {a b : DdBroker H} (h : SameTables a b) (ha : SubsOwned a) :
    SubsOwned b := by
  intro s t ht
  rw [h.lclCliHt]
  exact ha s t (by rwa [topicsOf, h.subscribeHt] at ht)

/-- A `SUB` or `UNREG` comes from the socket id of the client it is accepted for. -/
def Request.ownSource : Request → Bool
  | .sub ln sockid _ | .leave ln sockid => decide (ln.sockid = sockid)
  | _ => true

variable (env) in
/-- An event that keeps the stores together and whose `SUB` or `UNREG` has the right source. -/
def isolationSafe (self : DdBroker H) (e : Event) : Bool :=
  storesSafe env self e && (request env self e).ownSource

section

variable (hinj : Function.Injective env.xxh32) {self self' : DdBroker H}

include hinj

/-- `remove_subscriptions` clears the list of the socket id. -/
theorem TablesOk.topicsOf_removeSubscriptions (hok : TablesOk env self) {sockid : Frame} {n : Nat}
    (h : DoubleDecker.removeSubscriptions env self sockid = some (self', n)) (s : Frame) :
    topicsOf self' s = if s = sockid then [] else topicsOf self s := by
  unfold DoubleDecker.removeSubscriptions at h
  obtain ⟨sn, hsn, -⟩ | ⟨hsn, htop⟩ := hok.lookup_topics hinj sockid
  · rw [hsn] at h
    obtain ⟨root, -, h⟩ := Option.bind_eq_some_iff.mp h
    cases h
    exact hok.topicsOf_del hinj root sockid s
  · rw [hsn] at h
    cases h
    split
    · next hs => rw [hs, htop]
    · rfl

/-- **A client that goes** takes the topics of the socket id with it, and no other client. -/
theorem TablesOk.removeClient_spec (hok : TablesOk env self) {sockid : Frame} {c : LocalClient}
    (hc : c ∈ self.lclCliHt.nodes) (h : DoubleDecker.removeClient env self sockid c = some self') :
    (∀ s, topicsOf self' s = if s = sockid then [] else topicsOf self s) ∧
    ∀ c', c' ∈ self'.lclCliHt.nodes ↔ c' ∈ self.lclCliHt.nodes ∧ c' ≠ c := by
  obtain ⟨⟨b, n⟩, hb, rfl⟩ := Option.map_eq_some_iff.mp h
  have hlcl : b.lclCliHt = self.lclCliHt := by
    obtain rfl | ⟨root, rfl⟩ := removeSubscriptions_eq hb <;> rfl
  have htop := hok.topicsOf_removeSubscriptions hinj hb
  refine ⟨htop, fun c' => ?_⟩
  rw [← hlcl]
  exact ((hok.removeSubscriptions hb).unlink hinj (hlcl ▸ hc)).2 c'

/-- A client that goes with the topics of its own socket id. -/
theorem SubsOwned.removeClient (h : SubsOwned self) (hok : TablesOk env self) {c : LocalClient}
    (hc : c ∈ self.lclCliHt.nodes)
    (hrem : DoubleDecker.removeClient env self c.sockid c = some self') : SubsOwned self' := by
  obtain ⟨htop, hmem⟩ := hok.removeClient_spec hinj hc hrem
  intro s t ht
  rw [htop] at ht
  split at ht
  · exact absurd ht List.not_mem_nil
  · next hs =>
    obtain ⟨c', hc', hs', howned⟩ := h s t ht
    exact ⟨c', (hmem c').mpr ⟨hc', fun he => hs (he ▸ hs'.symm)⟩, hs', howned⟩

/-- A new subscription belongs to the client it is accepted for. -/
theorem SubsOwned.addSubscription (h : SubsOwned self) (hok : TablesOk env self) {sockid : Frame}
    {key : CStr} {c : LocalClient} (hc : c ∈ self.lclCliHt.nodes) (hs : c.sockid = sockid)
    (howned : Owned c.tenant key)
    (hadd : DoubleDecker.addSubscription env self sockid key = some self') : SubsOwned self' := by
  obtain ⟨⟨b, n⟩, hb, hadd⟩ := Option.bind_eq_some_iff.mp hadd
  obtain ⟨⟨root, r⟩, -, rfl⟩ := Option.map_eq_some_iff.mp hadd
  have htop := hok.topicsOf_insert hinj hb
  obtain ⟨ht, rfl⟩ := insertSubscription_frame hb
  intro s t hmem
  have hmem' : t ∈ topicsOf { self with subscribeHt := ht } s := hmem
  rw [htop] at hmem'
  split at hmem'
  · next hcase =>
    rcases List.mem_append.mp hmem' with hold | hnew
    · exact h s t hold
    · rw [List.mem_singleton.mp hnew]
      exact ⟨c, hc, hs.trans hcase.1.symm, howned⟩
  · exact h s t hmem'

/-- An `UNSUB` takes topics away. -/
theorem SubsOwned.removeSubscription (h : SubsOwned self) (hok : TablesOk env self)
    {sockid : Frame} {key : CStr} {n : Nat}
    (hrem : DoubleDecker.removeSubscription env self sockid key = some (self', n)) :
    SubsOwned self' := by
  obtain rfl | ⟨root, rfl⟩ := removeSubscription_eq hrem
  · exact h
  · intro s t ht
    rw [hok.topicsOf_del hinj root sockid s] at ht
    split at ht
    · exact absurd ht List.not_mem_nil
    · exact h s t ht

/-- **Every request from the right source keeps every topic owned.** -/
theorem SubsOwned.effect (h : SubsOwned self) (hok : TablesOk env self)
    (hplain : self.keys.Plain) {r : Request} (hr : r.Granted env self) (hown : r.ownSource)
    (heff : r.effect env self = some self') : SubsOwned self' := by
  cases r with
  | none =>
    cases heff
    exact h
  | register sockid hash ten clientName =>
    obtain ⟨o, ho, rfl⟩ := Option.map_eq_some_iff.mp heff
    cases o with
    | none => exact h
    | some b =>
      obtain ⟨-, -, -, -, rfl⟩ := insertLocalClient_eq ho
      intro s t ht
      obtain ⟨c, hc, hs, howned⟩ := h s t ht
      exact ⟨c, by simpa using Or.inl hc, hs, howned⟩
  | sub ln sockid key =>
    obtain ⟨⟨cookie, hln⟩, topic, scope, rfl⟩ := hr
    have hmem := (hok.of_hasLocal hinj hln).1
    obtain ⟨hash, ten, hten, hname, -⟩ := hok.tenant ln hmem
    exact h.addSubscription hinj hok hmem (of_decide_eq_true hown)
      (owned_subTopic (hname ▸ hplain.fits hash ten hten) topic scope) heff
  | unsub ln sockid key =>
    obtain ⟨⟨b, n⟩, hb, rfl⟩ := Option.map_eq_some_iff.mp heff
    exact h.removeSubscription hinj hok hb
  | leave ln sockid =>
    obtain ⟨cookie, hln⟩ := hr
    obtain rfl : ln.sockid = sockid := of_decide_eq_true hown
    exact h.removeClient hinj hok (hok.of_hasLocal hinj hln).1 heff
  | expel ln =>
    obtain ⟨name, hln⟩ := hr
    exact h.removeClient hinj hok (hok.of_hasRev hinj hln).1 heff
  | expire =>
    obtain ⟨sends, hcheck⟩ := Outcome.broker_eq_some.mp heff
    refine (checkClients_induction (P := fun b => TablesOk env b ∧ SubsOwned b)
      (fun _ _ hb => ⟨{ hb.1 with }, hb.2⟩) ?_ ⟨hok, h⟩ hcheck).2
    intro b np b' sends ⟨hbok, hb⟩ hu
    refine ⟨hbok.unregCli hinj hu, ?_⟩
    obtain ⟨-, rfl, -⟩ | ⟨c, hc, hr, -⟩ := sCbUnregCli_eq_done hu
    · exact hb
    · obtain ⟨hmem, hkey, -⟩ := hbok.of_hasLocal hinj hc
      rw [← (append_cookie_inj hkey).1] at hr
      exact hb.removeClient hinj hbok hmem hr
  | addBroker sockid cookie =>
    obtain ⟨o, ho, rfl⟩ := Option.map_eq_some_iff.mp heff
    split <;> exact h
  | addDist sockid name dist =>
    cases heff
    exact h
  | delDist sockid name =>
    cases heff
    split <;> exact h
  | dropDist name =>
    cases heff
    split <;> exact h
  | expireBrokers =>
    obtain ⟨sends, hcheck⟩ := Outcome.broker_eq_some.mp heff
    exact checkBrokers_induction (P := SubsOwned) (fun _ _ h => h) (fun _ _ h => h) h hcheck

end

/-- Every topic is owned in every run whose steps are safe. -/
theorem RunIf.subsOwned (hinj : Function.Injective env.xxh32) {cfg : Config}
    (hplain : cfg.keys.Plain) {es : List Event} {self : DdBroker H}
    (h : RunIf env cfg (isolationSafe env) es self) : SubsOwned self := by
  induction h with
  | init => exact fun s t ht => absurd ht List.not_mem_nil
  | step hrun _ hc hs ih =>
    rw [isolationSafe, Bool.and_eq_true] at hc
    have hok := Reachable.tablesOk hinj ⟨_, hrun.run⟩
    obtain ⟨self₁, h₁, hsame⟩ := step_effect hs
    exact hsame.subsOwned (ih.effect hinj hok (hrun.run.keys ▸ hplain) (granted _ _) hc.2 h₁)

/-! ## Isolation -/

variable (env) in
/-- The tenant a publication belongs to: `public` for a public topic, else the tenant of the client
that published it; a publication from another broker names it before its first dot. -/
def publicationTenant (self : DdBroker H) : Event → Option CStr
  | .router msg =>
    match routerCmd msg with
    | some (source, .pub, cookie :: topic :: _) =>
      (acceptedFor env self source cookie).map fun ln => topicTenant ln (CStr.ofBytes topic)
    | _ => none
  | .subN (topic :: _) | .subS (topic :: _) => some ((CStr.ofBytes topic).before dot)
  | _ => none

omit [DecidableEq H] in
/-- **A subscriber found in the trie** is registered under the tenant of the topic. -/
theorem SubsOwned.of_tree {self : DdBroker H} (hok : TablesOk env self) (hstores : StoresOk self)
    (howned : SubsOwned self)
    (hplain : self.keys.Plain) {topic name topic' : CStr} {socks : Option (List Frame)}
    {m : List Frame} (hsocks : nnTrieTree self.topicsTrie topic.bytes = some socks) {x : Send}
    (hx : x ∈ pubLocally socks name topic' m) :
    ∃ c ∈ self.lclCliHt.nodes, (∃ body, x = .rsock c.sockid body) ∧
      c.tenant = topic.before dot := by
  obtain ⟨s, hs, rfl⟩ := List.mem_map.mp hx
  obtain ⟨l, hl, -, hmem, -⟩ := nnTrieTree_spec hstores.holds.shaped topic.nul_free
  rw [hsocks, Option.some.injEq] at hl
  subst hl
  obtain ⟨p, hp, hheld⟩ := (hmem s).mp hs
  obtain ⟨t, ht, rfl⟩ := (hstores.holds.mem p s).mp hheld
  obtain ⟨c, hc, rfl, hown⟩ := howned s t ht
  obtain ⟨hash, ten, hten, hname, -⟩ := hok.tenant c hc
  refine ⟨c, hc, ⟨_, rfl⟩, ((hown.mono hp).before ?_).symm⟩
  exact hname ▸ hplain.dot_free hash ten hten

/-- **Where a `PUB` comes from** — a lookup of a topic that starts with the tenant of the
publication. -/
theorem step_pub_sends (hinj : Function.Injective env.xxh32) {self : DdBroker H}
    (hok : TablesOk env self) (hplain : self.keys.Plain) {e : Event} {x : Send}
    (hx : x ∈ (step env self e).sends) (hpub : x.cmd = some .pub) :
    ∃ (topic name topic' : CStr) (socks : Option (List Frame)) (m : List Frame),
      nnTrieTree self.topicsTrie topic.bytes = some socks ∧ x ∈ pubLocally socks name topic' m ∧
      publicationTenant env self e = some (topic.before dot) := by
  have hans := says_step self e _ hx _ hpub
  cases e with
  | router msg =>
    obtain ⟨source, cmd, rest, hm, heq⟩ | ⟨hm, -⟩ := sOnRouterMsg_eq env self msg
    · rw [step, heq] at hx
      obtain rfl : cmd = .pub := by
        rw [Event.answers, hm] at hans
        cases cmd <;> simp [Cmd.answers] at hans
        rfl
      cases rest with
      | nil => exact absurd hx List.not_mem_nil
      | cons cookie rest =>
        obtain ⟨ln, topicFrame, rest, topic', topic, name, rfl, -, hln, hcomp, hx⟩ :=
          sCbPub_sends hx
        obtain hrelay | ⟨socks, hsocks, hx⟩ := hx
        · rw [hrelay.cmd] at hpub
          cases hpub
        · refine ⟨topic, name, topic', socks, _, hsocks, hx, ?_⟩
          obtain ⟨hash, ten, hten, hname, -⟩ := hok.tenant ln (hok.of_hasLocal hinj hln).1
          have hbefore := before_composeTopic self (CStr.ofBytes topicFrame)
            (hname ▸ hplain.dot_free hash ten hten) (hname ▸ hplain.fits hash ten hten)
          rw [hcomp] at hbefore
          simp only [publicationTenant, hm, acceptedFor_eq_some.mpr hln, Option.map_some, hbefore]
    · rw [Event.answers, hm] at hans
      simp at hans
  | subN msg =>
    obtain ⟨topicFrame, nameFrame, rest, rfl, hrelay | ⟨socks, topic', hsocks, hx⟩⟩ :=
      sOnSubNMsg_sends hx
    · rw [hrelay.cmd] at hpub
      cases hpub
    · exact ⟨_, _, topic', socks, _, hsocks, hx, rfl⟩
  | subS msg =>
    obtain ⟨topicFrame, nameFrame, rest, rfl, hrelay | ⟨socks, topic', hsocks, hx⟩⟩ :=
      sOnSubSMsg_sends hx
    · rw [hrelay.cmd] at hpub
      cases hpub
    · exact ⟨_, _, topic', socks, _, hsocks, hx, rfl⟩
  | dealer msg =>
    rw [Event.answers] at hans
    cases hm : dealerCmd msg with
    | none => rw [hm] at hans; simp at hans
    | some p =>
      obtain ⟨cmd, rest⟩ := p
      rw [hm] at hans
      cases cmd <;> simp [Cmd.dealerAnswers] at hans
  | pubN | pubS | register | heartbeat | checkCliTimeout | checkBrTimeout =>
    simp [Event.answers] at hans

/-- **Publication isolation** — in every run whose steps are safe, whatever comes next: a `PUB` goes
to the socket id of a client registered at that moment under the tenant of the publication. -/
theorem publication_isolation (hinj : Function.Injective env.xxh32) {cfg : Config}
    (hplain : cfg.keys.Plain) {es : List Event} {self : DdBroker H}
    (hrun : RunIf env cfg (isolationSafe env) es self) {e : Event} {s : Frame} {msg : List Frame}
    (hsend : Send.rsock s msg ∈ (step env self e).sends)
    (hpub : (Send.rsock s msg).cmd = some .pub) :
    ∃ c ∈ self.lclCliHt.nodes, c.sockid = s ∧ publicationTenant env self e = some c.tenant := by
  have hok : TablesOk env self := Reachable.tablesOk hinj ⟨_, hrun.run⟩
  have hstores : StoresOk self := hrun.storesOk hinj fun b e h => by
    rw [isolationSafe, Bool.and_eq_true] at h
    exact h.1
  have hplain' : self.keys.Plain := hrun.run.keys ▸ hplain
  obtain ⟨topic, name, topic', socks, m, hsocks, hx, htenant⟩ :=
    step_pub_sends hinj hok hplain' hsend hpub
  obtain ⟨c, hc, ⟨body, hbody⟩, hten⟩ := (hrun.subsOwned hinj hplain).of_tree hok hstores hplain'
    hsocks hx
  cases hbody
  exact ⟨c, hc, rfl, by rw [htenant, hten]⟩

/-! ### A topic that outlives its client -/

/-- The tenants of the demonstration have plain names. -/
theorem demoKeys_plain : demoKeys.Plain := by
  have hall : ∀ p ∈ demoKeys.tenantkeys, dot ∉ p.2.name.bytes ∧ p.2.name.length < 255 := by decide
  exact ⟨fun hash ten h => (hall _ (DdBrokerKeys.mem_of_tenant h)).1,
    fun hash ten h => (hall _ (DdBrokerKeys.mem_of_tenant h)).2⟩

/-- A second client of the tenant. -/
def secondClient : Event := .router (challokMsg [6] (cookieOf 65) (text "hashA") (text "d"))

/-- It publishes `y`. -/
def pubY : Event := .router ([6] :: ddMsg .pub [(cookieOf 65).1, CStr.ascii "y", []])

/-- The message the subscriber of `y` gets. -/
def pubYSend : Send := .rsock [1, 2, 3, 4, 5] (ddMsg .pub [CStr.ascii "d", CStr.ascii "y"])

theorem secondClient_run : (runEvents plainEnv (ddBrokerNew _ demoConfig)
    (secondClient :: twoTopics)).map
      (fun self => decide (pubYSend ∈ (step plainEnv self pubY).sends)) =
      some true := by
  decide +kernel

/-- The client of the run above is registered when it gets the publication. -/
theorem publication_isolation_twoTopics : ∃ self : DdBroker (List UInt8),
    runEvents plainEnv (ddBrokerNew _ demoConfig) (secondClient :: twoTopics) = some self ∧
      ∃ c ∈ self.lclCliHt.nodes, c.sockid = [1, 2, 3, 4, 5] ∧
        publicationTenant plainEnv self pubY = some c.tenant := by
  obtain ⟨self, hself, hsend⟩ := Option.map_eq_some_iff.mp secondClient_run
  exact ⟨self, hself, publication_isolation Function.injective_id demoKeys_plain
    (.of_runEvents (by decide +kernel) hself) (of_decide_eq_true hsend) (by decide)⟩

/-- The client unsubscribes from `x` and leaves, and the second client comes. -/
def lostTopic : List Event :=
  secondClient :: .router ([1, 2, 3, 4, 5] :: ddMsg .unreg [(cookieOf 65).1]) ::
    .router (subMsg .unsub [1, 2, 3, 4, 5] (cookieOf 65) (text "x")) :: twoTopics

theorem lostTopic_run : (runEvents plainEnv (ddBrokerNew _ demoConfig) lostTopic).map
    (fun self => (self.lclCliHt.nodes.map LocalClient.sockid,
      decide (pubYSend ∈ (step plainEnv self pubY).sends))) = some ([[6]], true) := by
  decide +kernel

/-- **Publications are not always isolated** — the client that has left gets the publication of the
topic it had not unsubscribed. -/
theorem not_publication_isolation : ¬ ∀ (H : Type) [DecidableEq H] (env : Env H),
    Function.Injective env.xxh32 → ∀ (cfg : Config), cfg.keys.Plain → ∀ (es : List Event)
    (self : DdBroker H), Run env cfg es self → ∀ (e : Event) (s : Frame) (msg : List Frame),
    Send.rsock s msg ∈ (step env self e).sends → (Send.rsock s msg).cmd = some .pub →
    ∃ c ∈ self.lclCliHt.nodes, c.sockid = s ∧ publicationTenant env self e = some c.tenant := by
  intro hall
  obtain ⟨self, hself, hpair⟩ := Option.map_eq_some_iff.mp lostTopic_run
  obtain ⟨hclients, hsend⟩ := Prod.mk.inj hpair
  obtain ⟨c, hc, hsock, -⟩ := hall _ plainEnv Function.injective_id demoConfig demoKeys_plain
    lostTopic self (.of_runEvents hself) pubY _ _ (of_decide_eq_true hsend) (by decide)
  have hmem : c.sockid ∈ self.lclCliHt.nodes.map LocalClient.sockid := List.mem_map_of_mem hc
  rw [hclients, hsock] at hmem
  exact absurd hmem (by decide)

end DoubleDecker
