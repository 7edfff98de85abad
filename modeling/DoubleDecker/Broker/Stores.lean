import DoubleDecker.Broker.Auth
import DoubleDecker.Trie.Refines

/-!
# Broker/Stores — the two stores of subscriptions

A subscription is kept twice: in the trie, under the key, and in `subscribe_ht`, under the socket
id.  `stores_agree`: the two hold the same pairs, each once, in every run whose steps stay away from
the branches that drop a pair from one store only (`storesSafe`).
-/

namespace DoubleDecker

open Trie

variable {H : Type} [DecidableEq H] {env : Env H}

/-! ## The pairs of `subscribe_ht` -/

omit [DecidableEq H] in
/-- The list of topics of a socket id. -/
def topicsOf {H : Type} (self : DdBroker H) (sockid : Frame) : List CStr :=
  ((self.subscribeHt.nodes.find? fun n => n.sockid = sockid).map SubscribeNode.topics).getD []

/-- The pairs of `subscribe_ht`, as the trie holds them. -/
def pairsOf {H : Type} (self : DdBroker H) : Set (List UInt8 × Frame) :=
  {p | ∃ t ∈ topicsOf self p.2, t.bytes = p.1}

omit [DecidableEq H] in
theorem mem_pairsOf {self : DdBroker H} {t : CStr} {s : Frame} :
    (t.bytes, s) ∈ pairsOf self ↔ t ∈ topicsOf self s :=
  ⟨fun ⟨_, ht, h⟩ => CStr.ext h ▸ ht, fun h => ⟨t, h, rfl⟩⟩

omit [DecidableEq H] in
/-- The pairs are those of the lists. -/
theorem pairsOf_congr {a b : DdBroker H} (h : ∀ s, topicsOf b s = topicsOf a s) :
    pairsOf b = pairsOf a := by
  ext p
  simp only [pairsOf, h]

section

variable (hinj : Function.Injective env.xxh32) {self : DdBroker H} (hok : TablesOk env self)

include hinj hok

/-- The lists after the node of a socket id was deleted. -/
theorem TablesOk.topicsOf_del (root : Option Node) (sockid s : Frame) :
    topicsOf { self with
      topicsTrie := root
      subscribeHt := self.subscribeHt.del (env.xxh32 sockid) (matchSubscribeNode sockid) } s =
      if s = sockid then [] else topicsOf self s := by
  have hm : ∀ a : SubscribeNode, a.sockid = sockid → matchSubscribeNode sockid a = some true :=
    fun a ha => by rw [matchSubscribeNode, ha, memcmpKey_self]
  simp only [topicsOf]
  rw [Lfht.nodes_del hinj hok.subKeyed hm, Lfht.eraseP_key_eq_filter hok.subNodup,
    List.find?_filter]
  by_cases hs : s = sockid
  · subst hs
    rw [if_pos rfl, List.find?_eq_none.mpr (by simp)]
    rfl
  · rw [if_neg hs]
    congr 3
    funext n
    by_cases hn : n.sockid = s
    · simp [hn, hs]
    · simp [hn]

/-- **`insert_subscription`** appends the key to the list of the socket id, unless it is there. -/
theorem TablesOk.topicsOf_insert {self' : DdBroker H} {sockid : Frame} {key : CStr} {n : Nat}
    (h : DoubleDecker.insertSubscription env self sockid key = some (self', n)) (s : Frame) :
    topicsOf self' s = if s = sockid ∧ key ∉ topicsOf self sockid then topicsOf self s ++ [key]
      else topicsOf self s := by
  have hm : ∀ a : SubscribeNode, a.sockid = sockid → matchSubscribeNode sockid a = some true :=
    fun a ha => by rw [matchSubscribeNode, ha, memcmpKey_self]
  unfold DoubleDecker.insertSubscription at h
  rw [hok.hasSubscribe hinj] at h
  split at h
  · cases h
  · next sn hsn =>
    rw [Option.some.injEq] at hsn
    have htop : topicsOf self sockid = sn.topics := by rw [topicsOf, hsn]; rfl
    split at h
    · next hin =>
      cases h
      rw [if_neg fun hc => hc.2 (htop ▸ of_decide_eq_true hin)]
    · next hnew =>
      cases h
      have hnew' : key ∉ topicsOf self sockid := fun hin => hnew (decide_eq_true (htop ▸ hin))
      have hcomp : ((fun n : SubscribeNode => decide (n.sockid = s)) ∘ fun a : SubscribeNode =>
          if a.sockid = sockid then { a with topics := a.topics ++ [key] } else a) =
          fun n => decide (n.sockid = s) := by
        funext a
        simp only [Function.comp_apply]
        split <;> rfl
      by_cases hs : s = sockid
      · subst hs
        rw [if_pos ⟨rfl, hnew'⟩, htop]
        have hkey : sn.sockid = s := by simpa using List.find?_some hsn
        simp only [topicsOf]
        rw [Lfht.nodes_modify hinj hok.subKeyed hok.subNodup hm, List.find?_map, hcomp, hsn]
        simp [hkey]
      · rw [if_neg fun hc => hs hc.1]
        simp only [topicsOf]
        rw [Lfht.nodes_modify hinj hok.subKeyed hok.subNodup hm, List.find?_map, hcomp]
        cases hf : self.subscribeHt.nodes.find? fun n => n.sockid = s with
        | none => rfl
        | some a =>
          have ha : a.sockid = s := by simpa using List.find?_some hf
          simp [ha, hs]
  · next hnone =>
    cases h
    rw [Option.some.injEq] at hnone
    have htop : topicsOf self sockid = [] := by rw [topicsOf, hnone]; rfl
    by_cases hs : s = sockid
    · subst hs
      rw [if_pos ⟨rfl, htop ▸ List.not_mem_nil⟩, htop]
      simp only [topicsOf, Lfht.nodes_add, List.find?_append, hnone]
      simp
    · rw [if_neg fun hc => hs hc.1]
      simp only [topicsOf, Lfht.nodes_add, List.find?_append]
      rw [List.find?_singleton, if_neg (by simpa using Ne.symm hs), Option.or_none]

/-- A key that was not there does not come twice. -/
theorem TablesOk.nodup_insert {self' : DdBroker H} {sockid : Frame} {key : CStr} {n : Nat}
    (h : DoubleDecker.insertSubscription env self sockid key = some (self', n)) {s : Frame}
    (hnd : (topicsOf self s).Nodup) : (topicsOf self' s).Nodup := by
  rw [hok.topicsOf_insert hinj h]
  split
  · next hnew =>
    refine List.nodup_append.mpr ⟨hnd, List.nodup_singleton key, fun a ha b hb hab => ?_⟩
    rw [List.mem_singleton.mp hb] at hab
    exact hnew.2 (hnew.1 ▸ hab ▸ ha)
  · exact hnd

/-- The node found is the one with the list. -/
theorem TablesOk.lookup_topics (sockid : Frame) :
    (∃ sn, self.subscribeHt.lookup (env.xxh32 sockid) (matchSubscribeNode sockid) =
      some (some sn) ∧ sn.topics = topicsOf self sockid) ∨
    (self.subscribeHt.lookup (env.xxh32 sockid) (matchSubscribeNode sockid) = some none ∧
      topicsOf self sockid = []) := by
  rw [hok.hasSubscribe hinj, topicsOf]
  cases self.subscribeHt.nodes.find? fun n => n.sockid = sockid with
  | none => exact Or.inr ⟨rfl, rfl⟩
  | some sn => exact Or.inl ⟨sn, rfl, rfl⟩

end

/-! ## The agreement -/

/-- **The stores agree** — the trie holds the pairs of `subscribe_ht`, and no list of either has an
entry twice. -/
structure StoresOk {H : Type} (b : DdBroker H) : Prop where
  holds : Holds b.topicsTrie (pairsOf b)
  nodup : ∀ s, (topicsOf b s).Nodup

omit [DecidableEq H] in
theorem SameTables.storesOk {a b : DdBroker H} (h : SameTables a b) (ha : StoresOk a) :
    StoresOk b := by
  have htop : ∀ s, topicsOf b s = topicsOf a s := fun s => by
    rw [topicsOf, topicsOf, h.subscribeHt]
  exact ⟨by rw [h.topicsTrie, pairsOf_congr htop]; exact ha.holds, fun s => htop s ▸ ha.nodup s⟩

/-- The operations that take topics of a socket id from the trie. -/
def unsubscribes (sockid : Frame) (topics : List CStr) : List Op :=
  topics.map fun t => .unsubscribe t.bytes sockid

theorem unsubscribeAll_eq_exec (sockid : Frame) : ∀ (topics : List CStr) (root : Option Node),
    unsubscribeAll sockid topics root = exec root (unsubscribes sockid topics)
  | [], _ => rfl
  | t :: ts, root => by
    rw [unsubscribeAll, unsubscribes, List.map_cons, exec, Op.exec]
    cases nnTrieUnsubscribe root t.bytes sockid with
    | none => rfl
    | some p => exact unsubscribeAll_eq_exec sockid ts p.1

/-- The pairs without those of a list of topics. -/
theorem mem_pairsAfter_unsubscribes {sockid : Frame} : ∀ {topics : List CStr}
    {pairs : Set (List UInt8 × Frame)} {q : List UInt8 × Frame},
    q ∈ pairsAfter pairs (unsubscribes sockid topics) ↔
      q ∈ pairs ∧ ¬ (q.2 = sockid ∧ ∃ t ∈ topics, t.bytes = q.1)
  | [], pairs, q => by simp [unsubscribes, pairsAfter]
  | t :: ts, pairs, q => by
    rw [unsubscribes, List.map_cons, pairsAfter, Op.apply]
    refine (@mem_pairsAfter_unsubscribes _ ts _ _).trans ?_
    rw [Set.mem_sdiff, Set.mem_singleton_iff, and_assoc]
    refine and_congr_right fun _ => ?_
    obtain ⟨p, s⟩ := q
    simp only [Prod.mk.injEq, List.mem_cons, exists_eq_or_imp, eq_comm (a := t.bytes)]
    by_cases hs : s = sockid
    · simp [hs]
    · simp [hs]

/-- Topics of one list, each there once, may be unsubscribed one after the other. -/
theorem allowedFrom_unsubscribes {sockid : Frame} : ∀ {topics : List CStr}
    {pairs : Set (List UInt8 × Frame)}, topics.Nodup → (∀ t ∈ topics, (t.bytes, sockid) ∈ pairs) →
    AllowedFrom pairs (unsubscribes sockid topics)
  | [], _, _, _ => trivial
  | t :: ts, pairs, hnd, hall => by
    rw [List.nodup_cons] at hnd
    refine ⟨hall t List.mem_cons_self, allowedFrom_unsubscribes hnd.2 fun t' ht' => ?_⟩
    refine ⟨hall t' (List.mem_cons_of_mem _ ht'), fun he => hnd.1 ?_⟩
    rw [Set.mem_singleton_iff, Prod.mk.injEq] at he
    exact CStr.ext he.1 ▸ ht'

/-! ## The branches that lose a pair -/

variable (env) in
/-- The trie is safe for the removal of every topic of a socket id. -/
def removalSafe (self : DdBroker H) (sockid : Frame) : Bool :=
  safeFrom self.topicsTrie (unsubscribes sockid (topicsOf self sockid))

variable (env) in
/-- Every client the timeouts remove is removed safely. -/
def expireSafe : List LocalClient → DdBroker H → Bool
  | [], _ => true
  | np :: rest, self =>
    if self.cliTimeout np < 3 then
      expireSafe rest { self with
        cliTimeout := fun c => if c = np then self.cliTimeout np + 1 else self.cliTimeout c }
    else removalSafe self np.sockid &&
      match sCbUnregCli env self np.sockid np.cookie.1 with
      | .done self _ => expireSafe rest self
      | .fault _ => true

variable (env) in
/-- **A request keeps the stores together** — the trie is safe for every operation, and an `UNSUB`
names the only topic of its socket id, or there is none. -/
def Request.storesSafe (self : DdBroker H) : Request → Bool
  | .sub _ sockid key => (Op.subscribe key.bytes sockid).safe self.topicsTrie
  | .unsub _ sockid key => decide (topicsOf self sockid = []) ||
      (decide (topicsOf self sockid = [key]) && removalSafe self sockid)
  | .leave _ sockid => removalSafe self sockid
  | .expel ln => removalSafe self ln.sockid
  | .expire => expireSafe env self.lclCliHt.nodes self
  | _ => true

variable (env) in
/-- An event keeps the stores together. -/
def storesSafe (self : DdBroker H) (e : Event) : Bool := (request env self e).storesSafe env self

/-! ## Every safe step keeps the agreement -/

section

variable (hinj : Function.Injective env.xxh32) {self self' : DdBroker H}

include hinj

/-- A removal of all topics of a socket id, in both stores. -/
theorem StoresOk.removeAll (hok : TablesOk env self) (h : StoresOk self) {sockid : Frame}
    (hsafe : removalSafe self sockid) {root : Option Node}
    (hroot : unsubscribeAll sockid (topicsOf self sockid) self.topicsTrie = some root) :
    StoresOk { self with
      topicsTrie := root
      subscribeHt := self.subscribeHt.del (env.xxh32 sockid) (matchSubscribeNode sockid) } := by
  obtain ⟨root', hexec, hholds⟩ := exec_spec h.holds
    (allowedFrom_unsubscribes (h.nodup sockid) fun t ht => mem_pairsOf.mpr ht) hsafe
  rw [unsubscribeAll_eq_exec, hexec, Option.some.injEq] at hroot
  subst hroot
  have htop := hok.topicsOf_del hinj root' sockid
  refine ⟨⟨hholds.shaped, fun p s => ?_⟩, fun s => ?_⟩
  · rw [hholds.mem, mem_pairsAfter_unsubscribes]
    simp only [pairsOf, Set.mem_ofPred_eq, htop]
    by_cases hs : s = sockid
    · subst hs
      simp only [if_true, true_and, List.not_mem_nil, false_and, exists_false, iff_false, not_and,
        not_not]
      exact id
    · simp [hs]
  · rw [htop]
    split
    · exact List.nodup_nil
    · exact h.nodup s

/-- `remove_subscriptions` keeps the agreement. -/
theorem StoresOk.removeSubscriptions (hok : TablesOk env self) (h : StoresOk self) {sockid : Frame}
    (hsafe : removalSafe self sockid) {n : Nat}
    (hrem : removeSubscriptions env self sockid = some (self', n)) : StoresOk self' := by
  unfold DoubleDecker.removeSubscriptions at hrem
  obtain ⟨sn, hsn, htop⟩ | ⟨hsn, -⟩ := hok.lookup_topics hinj sockid
  · rw [hsn] at hrem
    obtain ⟨root, hroot, hrem⟩ := Option.bind_eq_some_iff.mp hrem
    cases hrem
    exact h.removeAll hinj hok hsafe (htop ▸ hroot)
  · rw [hsn] at hrem
    cases hrem
    exact h

/-- **`remove_subscription`** keeps the agreement when it removes all there is. -/
theorem StoresOk.removeSubscription (hok : TablesOk env self) (h : StoresOk self) {sockid : Frame}
    {key : CStr} (hsafe : topicsOf self sockid = [] ∨
      topicsOf self sockid = [key] ∧ removalSafe self sockid) {n : Nat}
    (hrem : removeSubscription env self sockid key = some (self', n)) : StoresOk self' := by
  unfold DoubleDecker.removeSubscription at hrem
  obtain ⟨sn, hsn, htop⟩ | ⟨hsn, -⟩ := hok.lookup_topics hinj sockid
  · rw [hsn] at hrem
    obtain ⟨root, hroot, hrem⟩ := Option.bind_eq_some_iff.mp hrem
    cases hrem
    obtain hnil | ⟨hone, hsafe⟩ := hsafe
    · refine h.removeAll hinj hok (by rw [removalSafe, hnil]; rfl) ?_
      rw [hnil]
      rwa [htop, hnil] at hroot
    · refine h.removeAll hinj hok hsafe ?_
      rw [hone]
      have hfilter : sn.topics.filter (· = key) = [key] := by rw [htop, hone]; simp
      rwa [hfilter] at hroot
  · rw [hsn] at hrem
    cases hrem
    exact h

/-- A client that goes leaves the stores in agreement. -/
theorem StoresOk.removeClient (hok : TablesOk env self) (h : StoresOk self) {sockid : Frame}
    (hsafe : removalSafe self sockid) {c : LocalClient}
    (hrem : removeClient env self sockid c = some self') : StoresOk self' := by
  obtain ⟨⟨b, n⟩, hb, rfl⟩ := Option.map_eq_some_iff.mp hrem
  have hb' := h.removeSubscriptions hinj hok hsafe hb
  exact ⟨hb'.holds, hb'.nodup⟩

/-- **A new subscription** is entered in both stores. -/
theorem StoresOk.addSubscription (hok : TablesOk env self) (h : StoresOk self) {sockid : Frame}
    {key : CStr} (hsafe : (Op.subscribe key.bytes sockid).safe self.topicsTrie)
    (hadd : addSubscription env self sockid key = some self') : StoresOk self' := by
  obtain ⟨⟨b, n⟩, hb, hadd⟩ := Option.bind_eq_some_iff.mp hadd
  obtain ⟨⟨root, r⟩, hroot, rfl⟩ := Option.map_eq_some_iff.mp hadd
  have htop := hok.topicsOf_insert hinj hb
  have hnd : ∀ s, (topicsOf b s).Nodup := fun s => hok.nodup_insert hinj hb (h.nodup s)
  obtain ⟨ht, rfl⟩ := insertSubscription_frame hb
  obtain ⟨m, r', hm, hwf, -, hsubs⟩ := nnTrieSubscribe_spec h.holds.shaped key.nul_free hsafe
  have hroot' : nnTrieSubscribe self.topicsTrie key.bytes sockid = some (root, r) := hroot
  rw [hm, Option.some.injEq, Prod.mk.injEq] at hroot'
  obtain ⟨rfl, -⟩ := hroot'
  have htop' : ∀ s, topicsOf { self with subscribeHt := ht, topicsTrie := some m } s =
      topicsOf { self with subscribeHt := ht } s := fun _ => rfl
  refine ⟨⟨shaped_some hwf, fun p s => ?_⟩, hnd⟩
  · have hmem := h.holds.mem p s
    rw [held_some, hsubs]
    simp only [pairsOf, Set.mem_ofPred_eq, htop', htop] at hmem ⊢
    by_cases hp : p = key.bytes
    · subst hp
      rw [if_pos rfl, mem_zlistAppendUnique, hmem]
      by_cases hs : s = sockid
      · subst hs
        by_cases hin : key ∈ topicsOf self s
        · rw [if_neg fun hc => hc.2 hin]
          exact ⟨fun _ => ⟨key, hin, rfl⟩, fun hex => Or.inl hex⟩
        · rw [if_pos ⟨rfl, hin⟩]
          exact ⟨fun _ => ⟨key, by simp, rfl⟩, fun _ => Or.inr rfl⟩
      · rw [if_neg fun hc => hs hc.1]
        simp [hs]
    · rw [if_neg hp, hmem]
      split
      · refine exists_congr fun t => ⟨fun ht => ⟨List.mem_append_left _ ht.1, ht.2⟩, fun ht => ?_⟩
        rcases List.mem_append.mp ht.1 with hold | hnew
        · exact ⟨hold, ht.2⟩
        · exact absurd (List.mem_singleton.mp hnew ▸ ht.2.symm) hp
      · rfl

/-- The client timeouts keep the agreement. -/
theorem StoresOk.checkClients {l : List LocalClient} {sends : List Send} (hok : TablesOk env self)
    (h : StoresOk self) (hsafe : expireSafe env l self)
    (hrun : checkClients env l self = .done self' sends) : StoresOk self' := by
  induction l generalizing self sends with
  | nil =>
    cases hrun
    exact h
  | cons np rest ih =>
    rw [DoubleDecker.checkClients] at hrun
    rw [expireSafe] at hsafe
    split at hrun
    · next hlt =>
      rw [if_pos hlt] at hsafe
      refine ih ?_ ?_ hsafe hrun
      · exact { hok with }
      · exact ⟨h.holds, h.nodup⟩
    · next hlt =>
      rw [if_neg hlt, Bool.and_eq_true] at hsafe
      obtain ⟨self₁, s₁, s₂, h₁, h₂, -⟩ := Outcome.andThen_eq_done.mp hrun
      rw [h₁] at hsafe
      have hstores : StoresOk self₁ := by
        obtain ⟨-, rfl, -⟩ | ⟨c, -, hr, -⟩ := sCbUnregCli_eq_done h₁
        · exact h
        · exact h.removeClient hinj hok hsafe.1 hr
      exact ih (hok.unregCli hinj h₁) hstores hsafe.2 h₂

/-- **Every safe request keeps the agreement.** -/
theorem StoresOk.effect (hok : TablesOk env self) (h : StoresOk self) {r : Request}
    (hsafe : r.storesSafe env self) (heff : r.effect env self = some self') : StoresOk self' := by
  cases r with
  | none =>
    cases heff
    exact h
  | register sockid hash ten clientName =>
    obtain ⟨o, ho, rfl⟩ := Option.map_eq_some_iff.mp heff
    cases o with
    | none => exact h
    | some b =>
      obtain ⟨-, -, -, -, rfl⟩ := insertLocalClient_eq ho
      exact ⟨h.holds, h.nodup⟩
  | sub ln sockid key => exact h.addSubscription hinj hok hsafe heff
  | unsub ln sockid key =>
    obtain ⟨⟨b, n⟩, hb, rfl⟩ := Option.map_eq_some_iff.mp heff
    refine h.removeSubscription hinj hok ?_ hb
    simpa [Request.storesSafe] using hsafe
  | leave ln sockid => exact h.removeClient hinj hok hsafe heff
  | expel ln => exact h.removeClient hinj hok hsafe heff
  | expire =>
    obtain ⟨sends, hcheck⟩ := Outcome.broker_eq_some.mp heff
    exact h.checkClients hinj hok hsafe hcheck
  | addBroker sockid cookie =>
    obtain ⟨o, ho, rfl⟩ := Option.map_eq_some_iff.mp heff
    split <;> exact ⟨h.holds, h.nodup⟩
  | addDist sockid name dist =>
    cases heff
    exact ⟨h.holds, h.nodup⟩
  | delDist sockid name =>
    cases heff
    split <;> exact ⟨h.holds, h.nodup⟩
  | dropDist name =>
    cases heff
    split <;> exact ⟨h.holds, h.nodup⟩
  | expireBrokers =>
    obtain ⟨sends, hcheck⟩ := Outcome.broker_eq_some.mp heff
    exact checkBrokers_induction (P := StoresOk) (fun _ _ h => ⟨h.holds, h.nodup⟩)
      (fun _ _ h => ⟨h.holds, h.nodup⟩) h hcheck

/-- Every safe step keeps the agreement. -/
theorem StoresOk.step (hok : TablesOk env self) (h : StoresOk self) {e : Event}
    {sends : List Send} (hsafe : storesSafe env self e)
    (hs : step env self e = .done self' sends) : StoresOk self' := by
  obtain ⟨self₁, h₁, hsame⟩ := step_effect hs
  exact hsame.storesOk (h.effect hinj hok hsafe h₁)

end

/-- The stores agree in every run whose steps are safe. -/
theorem RunIf.storesOk (hinj : Function.Injective env.xxh32) {cfg : Config}
    {cond : DdBroker H → Event → Bool} (hcond : ∀ b e, cond b e → storesSafe env b e)
    {es : List Event} {self : DdBroker H} (h : RunIf env cfg cond es self) : StoresOk self := by
  induction h with
  | init => exact ⟨⟨shaped_none, fun p s => by simp [pairsOf, topicsOf, ddBrokerNew]⟩,
      fun s => List.nodup_nil⟩
  | step hrun _ hc hs ih =>
    exact ih.step hinj (Reachable.tablesOk hinj ⟨_, hrun.run⟩) (hcond _ _ hc) hs

/-- **The two stores agree** — a socket id is in the list of the trie node that spells a topic just
when the topic is in its list in `subscribe_ht`, and each pair is in each store at most once. -/
structure StoresAgree {H : Type} (b : DdBroker H) : Prop where
  agree : ∀ (s : Frame) (t : CStr), s ∈ held b.topicsTrie t.bytes ↔ t ∈ topicsOf b s
  trieOnce : ∀ t, (held b.topicsTrie t).Nodup
  tableOnce : ∀ s, (topicsOf b s).Nodup
  oneNode : (b.subscribeHt.nodes.map SubscribeNode.sockid).Nodup

/-- **The stores agree in every run whose steps are safe.** -/
theorem stores_agree (hinj : Function.Injective env.xxh32) {cfg : Config} {es : List Event}
    {self : DdBroker H} (h : RunIf env cfg (storesSafe env) es self) : StoresAgree self := by
  have hstores := h.storesOk hinj fun _ _ => id
  refine ⟨fun s t => ?_, hstores.holds.shaped.nodup, hstores.nodup,
    (Reachable.tablesOk hinj ⟨es, h.run⟩).subNodup⟩
  rw [hstores.holds.mem, mem_pairsOf]

/-! ### One topic unsubscribed of two -/

/-- A `SUB` or `UNSUB` without a scope. -/
def subMsg (cmd : Cmd) (sockid : Frame) (cookie : Cookie) (topic : CStr) : List Frame :=
  sockid :: ddMsg cmd [cookie.1, topic.bytes, CStr.ascii "noscope"]

/-- A client registers and subscribes to `x` and `y`. -/
def twoTopics : List Event :=
  [.router (subMsg .sub [1, 2, 3, 4, 5] (cookieOf 65) (text "y")),
    .router (subMsg .sub [1, 2, 3, 4, 5] (cookieOf 65) (text "x")),
    .router (challokMsg [1, 2, 3, 4, 5] (cookieOf 65) (text "hashA") (text "c"))]

/-- The client leaves. -/
def twoTopicsGone : List Event :=
  .router ([1, 2, 3, 4, 5] :: ddMsg .unreg [(cookieOf 65).1]) :: twoTopics

/-- A client with two topics leaves, and both stores are empty. -/
theorem stores_agree_gone : ∃ self : DdBroker (List UInt8),
    runEvents plainEnv (ddBrokerNew _ demoConfig) twoTopicsGone = some self ∧
      StoresAgree self := by
  have hsome : (runEvents plainEnv (ddBrokerNew _ demoConfig) twoTopicsGone).isSome := by
    decide +kernel
  obtain ⟨self, hself⟩ := Option.isSome_iff_exists.mp hsome
  exact ⟨self, hself, stores_agree Function.injective_id
    (.of_runEvents (by decide +kernel) hself)⟩

theorem unsub_orphans : ((runEvents plainEnv (ddBrokerNew _ demoConfig)
    (.router (subMsg .unsub [1, 2, 3, 4, 5] (cookieOf 65) (text "x")) :: twoTopics)).map fun self =>
      (held self.topicsTrie (text "a.y").bytes, topicsOf self [1, 2, 3, 4, 5])) =
    some ([[1, 2, 3, 4, 5]], []) := by
  decide +kernel

/-- **The stores do not always agree** — the `UNSUB` of one of two topics leaves the other one in
the trie only. -/
theorem not_stores_agree : ¬ ∀ (H : Type) [DecidableEq H] (env : Env H),
    Function.Injective env.xxh32 → ∀ (cfg : Config) (es : List Event) (self : DdBroker H),
    Run env cfg es self → StoresAgree self := by
  intro hall
  obtain ⟨self, hself, hpair⟩ := Option.map_eq_some_iff.mp unsub_orphans
  have hagree := hall _ plainEnv Function.injective_id demoConfig _ self (.of_runEvents hself)
  obtain ⟨hheld, htop⟩ := Prod.mk.inj hpair
  have hmem := (hagree.agree [1, 2, 3, 4, 5] (text "a.y")).mp (by rw [hheld]; simp)
  rw [htop] at hmem
  exact absurd hmem List.not_mem_nil

end DoubleDecker
