import DoubleDecker.Broker.Requests

/-!
# Broker/Preserve — every step keeps the shape of the tables

One lemma for each operation on the tables, then one for each request (`TablesOk.effect`); by
`step_effect` every step keeps `TablesOk`, so every reachable broker has it.
-/

namespace DoubleDecker

open Trie

variable {H : Type} [DecidableEq H] {env : Env H}

/-! ## Frames of the operations -/

omit [DecidableEq H] in
/-- Brokers with the same tables are well shaped together. -/
theorem SameTables.tablesOk {a b : DdBroker H} (h : SameTables a b) (hok : TablesOk env a) :
    TablesOk env b := by
  obtain ⟨hkeys, -, -, -, hlcl, hrev, hdist, hbr, hsub⟩ := h
  obtain ⟨h1, h2, h3, h4, h5, h6, h7, h8, h9, h10, h11, h12, h13, h14⟩ := hok
  constructor <;> simp only [hkeys, hlcl, hrev, hdist, hbr, hsub] <;> assumption

omit [DecidableEq H] in
/-- Another trie and another table of subscriptions. -/
theorem TablesOk.withSubs {self : DdBroker H} (hok : TablesOk env self) (root : Option Node)
    {ht : Lfht H SubscribeNode} (hk : Lfht.Keyed ht env.xxh32 SubscribeNode.sockid)
    (hnd : (ht.nodes.map SubscribeNode.sockid).Nodup) :
    TablesOk env { self with topicsTrie := root, subscribeHt := ht } :=
  { hok with subKeyed := hk, subNodup := hnd }

/-- `remove_subscriptions` changes the trie and takes the node of the socket id. -/
theorem removeSubscriptions_eq {self self' : DdBroker H} {sockid : Frame} {n : Nat}
    (h : removeSubscriptions env self sockid = some (self', n)) :
    self' = self ∨ ∃ root, self' = { self with
      topicsTrie := root
      subscribeHt := self.subscribeHt.del (env.xxh32 sockid) (matchSubscribeNode sockid) } := by
  unfold removeSubscriptions at h
  split at h
  · cases h
  · cases h
    exact Or.inl rfl
  · obtain ⟨root, -, h⟩ := Option.bind_eq_some_iff.mp h
    cases h
    exact Or.inr ⟨root, rfl⟩

/-- `remove_subscription` changes the trie and takes the node of the socket id. -/
theorem removeSubscription_eq {self self' : DdBroker H} {sockid : Frame} {key : CStr} {n : Nat}
    (h : removeSubscription env self sockid key = some (self', n)) :
    self' = self ∨ ∃ root, self' = { self with
      topicsTrie := root
      subscribeHt := self.subscribeHt.del (env.xxh32 sockid) (matchSubscribeNode sockid) } := by
  unfold removeSubscription at h
  split at h
  · cases h
  · cases h
    exact Or.inl rfl
  · obtain ⟨root, -, h⟩ := Option.bind_eq_some_iff.mp h
    cases h
    exact Or.inr ⟨root, rfl⟩

/-- The node of a socket id taken out. -/
theorem TablesOk.delSubs {self : DdBroker H} (hok : TablesOk env self) (root : Option Node)
    (sockid : Frame) : TablesOk env { self with
      topicsTrie := root
      subscribeHt := self.subscribeHt.del (env.xxh32 sockid) (matchSubscribeNode sockid) } :=
  hok.withSubs root (hok.subKeyed.del _ _) (Lfht.nodup_nodes_del hok.subNodup _ _)

theorem TablesOk.removeSubscriptions {self self' : DdBroker H} (hok : TablesOk env self)
    {sockid : Frame} {n : Nat} (h : removeSubscriptions env self sockid = some (self', n)) :
    TablesOk env self' := by
  obtain rfl | ⟨root, rfl⟩ := removeSubscriptions_eq h
  · exact hok
  · exact hok.delSubs root sockid

theorem TablesOk.removeSubscription {self self' : DdBroker H} (hok : TablesOk env self)
    {sockid : Frame} {key : CStr} {n : Nat}
    (h : removeSubscription env self sockid key = some (self', n)) : TablesOk env self' := by
  obtain rfl | ⟨root, rfl⟩ := removeSubscription_eq h
  · exact hok
  · exact hok.delSubs root sockid

/-- `insert_subscription` changes the list of the socket id or adds a node for it. -/
theorem TablesOk.insertSubscription (hinj : Function.Injective env.xxh32) {self self' : DdBroker H}
    (hok : TablesOk env self) {sockid : Frame} {key : CStr} {n : Nat}
    (h : insertSubscription env self sockid key = some (self', n)) : TablesOk env self' := by
  have hm : ∀ a : SubscribeNode, a.sockid = sockid → matchSubscribeNode sockid a = some true :=
    fun a ha => by rw [matchSubscribeNode, ha, memcmpKey_self]
  unfold DoubleDecker.insertSubscription at h
  rw [hok.hasSubscribe hinj] at h
  split at h
  · cases h
  · split at h
    · cases h
      exact hok
    · cases h
      refine hok.withSubs self.topicsTrie (hok.subKeyed.modify _ _ fun _ => rfl) ?_
      rw [Lfht.nodes_modify hinj hok.subKeyed hok.subNodup hm, List.map_map]
      refine (List.map_congr_left fun a _ => ?_) ▸ hok.subNodup
      simp only [Function.comp_apply]
      split <;> rfl
  · next hnone =>
    cases h
    rw [Option.some.injEq, List.find?_eq_none] at hnone
    refine hok.withSubs self.topicsTrie
      (hok.subKeyed.add ⟨[key], sockid⟩) (Lfht.nodup_nodes_add hok.subNodup _ fun a ha hk => ?_)
    exact hnone a ha (by simpa using hk)

/-- A client that goes with its subscriptions. -/
theorem TablesOk.removeClient (hinj : Function.Injective env.xxh32) {self self' : DdBroker H}
    (hok : TablesOk env self) {sockid : Frame} {c : LocalClient} (hc : c ∈ self.lclCliHt.nodes)
    (h : removeClient env self sockid c = some self') : TablesOk env self' := by
  obtain ⟨⟨b, n⟩, hb, rfl⟩ := Option.map_eq_some_iff.mp h
  have hlcl : b.lclCliHt = self.lclCliHt := by
    obtain rfl | ⟨root, rfl⟩ := removeSubscriptions_eq hb <;> rfl
  exact ((hok.removeSubscriptions hb).unlink hinj (hlcl ▸ hc)).1

/-! ## Requests -/

/-- `hashtable_insert_local_broker` of a broker that is not there. -/
theorem TablesOk.insertLocalBroker (hinj : Function.Injective env.xxh32) {self : DdBroker H}
    (hok : TablesOk env self) {sockid : Frame} {cookie : Cookie}
    (h : hashtableHasLocalBroker env self sockid cookie = some none) :
    TablesOk env (hashtableInsertLocalBroker env self sockid cookie) := by
  rw [hok.hasBroker hinj, Option.some.injEq, List.find?_eq_none] at h
  exact { hok with
    brKeyed := hok.brKeyed.add ⟨sockid, cookie⟩
    brNodup := Lfht.nodup_nodes_add hok.brNodup _ fun b hb hk => h b hb (decide_eq_true hk) }

/-- `hashtable_insert_dist_node` of a name that is not there. -/
theorem TablesOk.insertDistNode (hinj : Function.Injective env.xxh32) {self : DdBroker H}
    (hok : TablesOk env self) {name : CStr} (h : hashtableHasDistNode env self name = none)
    (sockid : Frame) (dist : UInt32) :
    TablesOk env (hashtableInsertDistNode env self name sockid dist) := by
  rw [hok.hasDist hinj, List.find?_eq_none] at h
  exact { hok with
    distKeyed := hok.distKeyed.add ⟨name, sockid, dist⟩
    distNodup := Lfht.nodup_nodes_add hok.distNodup _ fun d hd hk =>
      h d hd (by simpa using CStr.ext hk) }

/-- `hashtable_remove_dist_node`. -/
theorem TablesOk.removeDistNode {self : DdBroker H} (hok : TablesOk env self) (name : CStr) :
    TablesOk env (hashtableRemoveDistNode env self name) :=
  { hok with
    distKeyed := hok.distKeyed.del _ _
    distNodup := Lfht.nodup_nodes_del hok.distNodup _ _ }

/-- An `UNREG` accepted for a client removes the client the lookup finds. -/
theorem sCbUnregCli_eq_done {self self' : DdBroker H} {sockid cookie : Frame} {sends : List Send}
    (h : sCbUnregCli env self sockid cookie = .done self' sends) :
    (hashtableHasLocalNode env self sockid cookie = some none ∧ self' = self ∧ sends = []) ∨
    ∃ c, hashtableHasLocalNode env self sockid cookie = some (some c) ∧
      removeClient env self sockid c = some self' ∧ sends = delCliUp self c.prefixName := by
  unfold sCbUnregCli at h
  split at h
  · cases h
  · next hn =>
    cases h
    exact Or.inl ⟨hn, rfl, rfl⟩
  · next c hc =>
    split at h
    · cases h
    · next b n hb =>
      cases h
      exact Or.inr ⟨c, hc, by rw [removeClient, hb]; rfl, rfl⟩

theorem TablesOk.unregCli (hinj : Function.Injective env.xxh32) {self self' : DdBroker H}
    (hok : TablesOk env self) {sockid cookie : Frame} {sends : List Send}
    (h : sCbUnregCli env self sockid cookie = .done self' sends) : TablesOk env self' := by
  obtain ⟨-, rfl, -⟩ | ⟨c, hc, hr, -⟩ := sCbUnregCli_eq_done h
  · exact hok
  · exact hok.removeClient hinj (hok.of_hasLocal hinj hc).1 hr

/-- **What every removal of a client keeps, the client timeouts keep.** -/
theorem checkClients_induction {P : DdBroker H → Prop}
    (htick : ∀ self np, P self → P { self with
      cliTimeout := fun c => if c = np then self.cliTimeout np + 1 else self.cliTimeout c })
    (hunreg : ∀ self (np : LocalClient) self' sends, P self →
      sCbUnregCli env self np.sockid np.cookie.1 = .done self' sends → P self')
    {l : List LocalClient} {self self' : DdBroker H} {sends : List Send} (hself : P self)
    (h : checkClients env l self = .done self' sends) : P self' := by
  induction l generalizing self sends with
  | nil =>
    cases h
    exact hself
  | cons np rest ih =>
    rw [checkClients] at h
    split at h
    · exact ih (htick self np hself) h
    · obtain ⟨self₁, s₁, s₂, h₁, h₂, -⟩ := Outcome.andThen_eq_done.mp h
      exact ih (hunreg self np self₁ s₁ hself h₁) h₂

omit [DecidableEq H] in
/-- Without a broker or the distant clients of a socket id. -/
theorem TablesOk.filterBrokers {self : DdBroker H} (hok : TablesOk env self)
    (p : H × DistClient → Bool) (q : H × LocalBroker → Bool) :
    TablesOk env { self with
      distCliHt := self.distCliHt.filter p, lclBrHt := self.lclBrHt.filter q } :=
  { hok with
    distKeyed := fun e he => hok.distKeyed e (List.mem_of_mem_filter he)
    distNodup := hok.distNodup.sublist
      ((List.filter_sublist.map Prod.snd).map DistClient.key)
    brKeyed := fun e he => hok.brKeyed e (List.mem_of_mem_filter he)
    brNodup := hok.brNodup.sublist ((List.filter_sublist.map Prod.snd).map LocalBroker.authKey) }

omit [DecidableEq H] in
/-- **The broker timeouts** keep what a removal of a broker with its distant clients keeps. -/
theorem checkBrokers_induction {P : DdBroker H → Prop}
    (htick : ∀ self np, P self → P { self with
      brTimeout := fun b => if b = np then self.brTimeout np + 1 else self.brTimeout b })
    (hremove : ∀ self (np : LocalBroker), P self → P { self with
      distCliHt := self.distCliHt.filter fun e => e.2.broker ≠ np.sockid
      lclBrHt := self.lclBrHt.filter fun e => e.2 ≠ np })
    {l : List LocalBroker} {self self' : DdBroker H} {sends : List Send} (hself : P self)
    (h : checkBrokers l self = .done self' sends) : P self' := by
  induction l generalizing self sends with
  | nil =>
    cases h
    exact hself
  | cons np rest ih =>
    rw [checkBrokers] at h
    split at h
    · exact ih (htick self np hself) h
    · obtain ⟨self₁, s₁, s₂, h₁, h₂, -⟩ := Outcome.andThen_eq_done.mp h
      cases h₁
      exact ih (hremove self np hself) h₂

/-- What the lookups behind a request say. -/
def Request.Granted (env : Env H) (self : DdBroker H) : Request → Prop
  | .register _ hash ten _ => self.keys.tenant hash = some ten
  | .sub ln sockid key | .unsub ln sockid key =>
    (∃ cookie, hashtableHasLocalNode env self sockid cookie = some (some ln)) ∧
    ∃ topic scope, key = subTopic ln.tenant topic scope
  | .leave ln sockid => ∃ cookie, hashtableHasLocalNode env self sockid cookie = some (some ln)
  | .expel ln => ∃ name, hashtableHasRevLocalNode env self name = some ln
  | .addDist _ name _ => hashtableHasDistNode env self name = Option.none
  | _ => True

omit [DecidableEq H] in
theorem granted_challok [DecidableEq H] (self : DdBroker H) (sockid : Frame) (msg : List Frame) :
    (challokRequest self sockid msg).Granted env self := by
  unfold challokRequest
  split
  · simp only
    split
    · split <;> trivial
    · split
      · trivial
      · next hten =>
        split
        · exact hten
        · trivial
  · trivial

/-- The key of a subscription starts with the tenant. -/
theorem subRequest_key {scope : List CStr} {ln : LocalClient} {msg : List Frame}
    {topic scopestr key : CStr} (h : subRequest scope ln msg = some (topic, scopestr, key)) :
    ∃ topic scope, key = subTopic ln.tenant topic scope := by
  unfold subRequest at h
  simp only at h
  split at h
  · cases h
  · split at h
    · cases h
    · split at h
      · cases h
      · obtain ⟨s, -, h⟩ := Option.map_eq_some_iff.mp h
        cases h
        exact ⟨_, s, rfl⟩

theorem granted_router (self : DdBroker H) (sockid : Frame) (cmd : Cmd) (msg : List Frame) :
    (routerRequest env self sockid cmd msg).Granted env self := by
  unfold routerRequest
  split
  · split
    · trivial
    · next hacc =>
      split
      · trivial
      · next hreq => exact ⟨⟨_, acceptedFor_eq_some.mp hacc⟩, subRequest_key hreq⟩
  · split
    · trivial
    · next hacc =>
      split
      · trivial
      · next hreq => exact ⟨⟨_, acceptedFor_eq_some.mp hacc⟩, subRequest_key hreq⟩
  · split
    · trivial
    · next hacc => exact ⟨_, acceptedFor_eq_some.mp hacc⟩
  · exact granted_challok self sockid _
  · split
    · split
      · trivial
      · next hnew =>
        split
        · trivial
        · rw [not_or] at hnew
          exact Option.not_isSome_iff_eq_none.mp hnew.2
    · trivial
  · split <;> trivial
  · trivial

theorem granted_dealer (self : DdBroker H) (cmd : Cmd) (msg : List Frame) :
    (dealerRequest env self cmd msg).Granted env self := by
  unfold dealerRequest
  split
  · split
    · split
      · next hrev => exact ⟨_, hrev⟩
      · trivial
    · trivial
  · trivial

/-- **A request is granted by the lookups it was decoded with.** -/
theorem granted (self : DdBroker H) (e : Event) : (request env self e).Granted env self := by
  cases e with
  | router msg =>
    simp only [request]
    split
    · trivial
    · exact granted_router self _ _ _
  | dealer msg =>
    simp only [request]
    split
    · trivial
    · exact granted_dealer self _ _
  | subN | subS | pubN | pubS | register | heartbeat | checkCliTimeout | checkBrTimeout => trivial

/-- **Every request keeps the shape of the tables.** -/
theorem TablesOk.effect (hinj : Function.Injective env.xxh32) {self self' : DdBroker H}
    (hok : TablesOk env self) {r : Request} (hr : r.Granted env self)
    (h : r.effect env self = some self') : TablesOk env self' := by
  cases r with
  | none =>
    cases h
    exact hok
  | register sockid hash ten clientName =>
    obtain ⟨o, ho, rfl⟩ := Option.map_eq_some_iff.mp h
    cases o with
    | none => exact hok
    | some b => exact hok.insertLocalClient hinj hr ho
  | sub ln sockid key =>
    obtain ⟨⟨b, n⟩, hb, h⟩ := Option.bind_eq_some_iff.mp h
    obtain ⟨⟨root, n⟩, -, rfl⟩ := Option.map_eq_some_iff.mp h
    have hok' := hok.insertSubscription hinj hb
    exact hok'.withSubs root hok'.subKeyed hok'.subNodup
  | unsub ln sockid key =>
    obtain ⟨⟨b, n⟩, hb, rfl⟩ := Option.map_eq_some_iff.mp h
    exact hok.removeSubscription hb
  | leave ln sockid =>
    obtain ⟨cookie, hln⟩ := hr
    exact hok.removeClient hinj (hok.of_hasLocal hinj hln).1 h
  | expel ln =>
    obtain ⟨name, hln⟩ := hr
    exact hok.removeClient hinj (hok.of_hasRev hinj hln).1 h
  | expire =>
    obtain ⟨sends, hcheck⟩ := Outcome.broker_eq_some.mp h
    exact checkClients_induction (fun _ _ hok => { hok with })
      (fun _ _ _ _ hok h => hok.unregCli hinj h) hok hcheck
  | addBroker sockid cookie =>
    obtain ⟨o, ho, rfl⟩ := Option.map_eq_some_iff.mp h
    cases o with
    | none => exact hok.insertLocalBroker hinj ho
    | some b => exact hok
  | addDist sockid name dist =>
    cases h
    exact hok.insertDistNode hinj hr sockid dist
  | delDist sockid name =>
    cases h
    split
    · exact hok.removeDistNode name
    · exact hok
  | dropDist name =>
    cases h
    split
    · exact hok.removeDistNode name
    · exact hok
  | expireBrokers =>
    obtain ⟨sends, hcheck⟩ := Outcome.broker_eq_some.mp h
    exact checkBrokers_induction (fun _ _ hok => { hok with })
      (fun _ _ hok => hok.filterBrokers _ _) hok hcheck

/-- What a request leaves alone: the keys, the scope, and the local clients but for one it
registers. -/
structure Request.Keeps {H : Type} (r : Request) (b b' : DdBroker H) : Prop where
  keys : b'.keys = b.keys
  scope : b'.scope = b.scope
  brokerScope : b'.brokerScope = b.brokerScope
  /-- A client that was not there was registered. -/
  clients : ∀ c ∈ b'.lclCliHt.nodes, c ∈ b.lclCliHt.nodes ∨
    ∃ sockid hash ten name, r = .register sockid hash ten name ∧
      (ten.name ++ dotStr ++ name).length ≤ 255 ∧
      c = ⟨name, joined 255 ten.name name, ten.name, ten.cookie, sockid⟩

omit [DecidableEq H] in
/-- A request that adds no client. -/
theorem Request.Keeps.of_subset {r : Request} {self self' : DdBroker H}
    (hkeys : self'.keys = self.keys) (hscope : self'.scope = self.scope)
    (hbs : self'.brokerScope = self.brokerScope)
    (h : ∀ c ∈ self'.lclCliHt.nodes, c ∈ self.lclCliHt.nodes) : r.Keeps self self' :=
  ⟨hkeys, hscope, hbs, fun c hc => Or.inl (h c hc)⟩

/-- A client that goes takes nothing else with it. -/
theorem removeClient_frame {self self' : DdBroker H} {sockid : Frame} {c : LocalClient}
    (h : removeClient env self sockid c = some self') (r : Request) : r.Keeps self self' := by
  obtain ⟨⟨b, n⟩, hb, rfl⟩ := Option.map_eq_some_iff.mp h
  have hdel : ∀ c' ∈ (unlinkClient env b c).lclCliHt.nodes, c' ∈ b.lclCliHt.nodes := by
    intro c' hc'
    obtain ⟨e, he, rfl⟩ := List.mem_map.mp hc'
    exact List.mem_map_of_mem (List.mem_of_mem_eraseP he)
  obtain rfl | ⟨root, rfl⟩ := removeSubscriptions_eq hb
  · exact .of_subset rfl rfl rfl hdel
  · exact .of_subset rfl rfl rfl hdel

omit [DecidableEq H] in
theorem Request.Keeps.trans {r : Request} {a b c : DdBroker H} (h : Request.none.Keeps a b)
    (h' : Request.none.Keeps b c) : r.Keeps a c := by
  refine .of_subset (h'.keys.trans h.keys) (h'.scope.trans h.scope)
    (h'.brokerScope.trans h.brokerScope) fun x hx => ?_
  obtain hx | ⟨_, _, _, _, hr, -⟩ := h'.clients x hx
  · obtain hx | ⟨_, _, _, _, hr, -⟩ := h.clients x hx
    · exact hx
    · cases hr
  · cases hr

theorem insertSubscription_frame {self self' : DdBroker H} {sockid : Frame} {key : CStr} {n : Nat}
    (h : insertSubscription env self sockid key = some (self', n)) :
    ∃ ht, self' = { self with subscribeHt := ht } := by
  unfold insertSubscription at h
  split at h
  · cases h
  · split at h <;> cases h <;> exact ⟨_, rfl⟩
  · cases h
    exact ⟨_, rfl⟩

/-- **The frame of a request.** -/
theorem Request.effect_frame {r : Request} {self self' : DdBroker H}
    (h : r.effect env self = some self') : r.Keeps self self' := by
  cases r with
  | none =>
    cases h
    exact .of_subset rfl rfl rfl fun _ hc => hc
  | register sockid hash ten clientName =>
    obtain ⟨o, ho, rfl⟩ := Option.map_eq_some_iff.mp h
    cases o with
    | none => exact .of_subset rfl rfl rfl fun _ hc => hc
    | some b =>
      obtain ⟨hlen, -, -, -, rfl⟩ := insertLocalClient_eq ho
      refine ⟨rfl, rfl, rfl, fun c hc => ?_⟩
      simp only [Option.getD_some, Lfht.nodes_add, List.mem_append, List.mem_singleton] at hc
      exact hc.imp_right fun hc => ⟨_, _, _, _, rfl, hlen, hc⟩
  | sub ln sockid key =>
    obtain ⟨⟨b, n⟩, hb, h⟩ := Option.bind_eq_some_iff.mp h
    obtain ⟨⟨root, n⟩, -, rfl⟩ := Option.map_eq_some_iff.mp h
    obtain ⟨ht, rfl⟩ := insertSubscription_frame hb
    exact .of_subset rfl rfl rfl fun _ hc => hc
  | unsub ln sockid key =>
    obtain ⟨⟨b, n⟩, hb, rfl⟩ := Option.map_eq_some_iff.mp h
    obtain rfl | ⟨root, rfl⟩ := removeSubscription_eq hb <;>
      exact .of_subset rfl rfl rfl fun _ hc => hc
  | leave ln sockid => exact removeClient_frame h _
  | expel ln => exact removeClient_frame h _
  | expire =>
    obtain ⟨sends, hcheck⟩ := Outcome.broker_eq_some.mp h
    have hnone : Request.none.Keeps self self' := by
      refine checkClients_induction (P := fun b => Request.none.Keeps self b)
        (fun b np hb => hb.trans (.of_subset rfl rfl rfl fun _ hc => hc)) ?_
        (.of_subset rfl rfl rfl fun _ hc => hc) hcheck
      intro b np b' sends hb hu
      obtain ⟨-, rfl, -⟩ | ⟨c, -, hr, -⟩ := sCbUnregCli_eq_done hu
      · exact hb
      · exact hb.trans (removeClient_frame hr _)
    exact hnone.trans (.of_subset rfl rfl rfl fun _ hc => hc)
  | addBroker sockid cookie =>
    obtain ⟨o, ho, rfl⟩ := Option.map_eq_some_iff.mp h
    split <;> exact .of_subset rfl rfl rfl fun _ hc => hc
  | addDist sockid name dist =>
    cases h
    exact .of_subset rfl rfl rfl fun _ hc => hc
  | delDist sockid name =>
    cases h
    split <;> exact .of_subset rfl rfl rfl fun _ hc => hc
  | dropDist name =>
    cases h
    split <;> exact .of_subset rfl rfl rfl fun _ hc => hc
  | expireBrokers =>
    obtain ⟨sends, hcheck⟩ := Outcome.broker_eq_some.mp h
    have hnone : Request.none.Keeps self self' :=
      checkBrokers_induction (P := fun b => Request.none.Keeps self b)
        (fun b np hb => hb.trans (.of_subset rfl rfl rfl fun _ hc => hc))
        (fun b np hb => hb.trans (.of_subset rfl rfl rfl fun _ hc => hc))
        (.of_subset rfl rfl rfl fun _ hc => hc) hcheck
    exact hnone.trans (.of_subset rfl rfl rfl fun _ hc => hc)

/-- **The frame of a step.** -/
theorem step_frame {self self' : DdBroker H} {e : Event} {sends : List Send}
    (h : step env self e = .done self' sends) : (request env self e).Keeps self self' := by
  obtain ⟨self₁, h₁, hsame⟩ := step_effect h
  have hf := Request.effect_frame h₁
  exact ⟨hsame.keys.trans hf.keys, hsame.scope.trans hf.scope,
    hsame.brokerScope.trans hf.brokerScope, fun c hc => hf.clients c (hsame.lclCliHt ▸ hc)⟩

/-- **Every step keeps the shape of the tables.** -/
theorem TablesOk.step (hinj : Function.Injective env.xxh32) {self self' : DdBroker H}
    (hok : TablesOk env self) {e : Event} {sends : List Send}
    (h : step env self e = .done self' sends) : TablesOk env self' := by
  obtain ⟨self₁, h₁, hsame⟩ := step_effect h
  exact hsame.tablesOk (hok.effect hinj (granted self e) h₁)

omit [DecidableEq H] in
/-- The tables of a new broker are empty. -/
theorem tablesOk_new (cfg : Config) : TablesOk env (ddBrokerNew H cfg) := by
  constructor <;> simp [ddBrokerNew, Lfht.Keyed]

/-- **Every reachable broker has well-shaped tables.** -/
theorem Reachable.tablesOk (hinj : Function.Injective env.xxh32) {cfg : Config}
    {self : DdBroker H} (h : Reachable env cfg self) : TablesOk env self :=
  h.induction (tablesOk_new cfg) fun _ _ _ _ hok hs => hok.step hinj hs

end DoubleDecker
