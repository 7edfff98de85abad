import DoubleDecker.Broker.Auth

/-!
# Broker/Collisions — the lookups under any hash

Nothing here assumes that the hash tells keys apart.  What separates two keys of one hash is the
match function, and each of them compares as many bytes as the searched key has and nothing else: a
node whose key goes on after that is taken for the key, a shorter one is read past its end, and the
cookie of a broker is not looked at.  `lookups_exact_iff`: a lookup is exact just when no such node
stands in front of the one searched for.
-/

namespace DoubleDecker

variable {H : Type} [DecidableEq H] {env : Env H}

/-! ## The tables of a reachable broker -/

/-- Every node is stored under the hash of its key, whatever the hash. -/
structure Hashed (env : Env H) (b : DdBroker H) : Prop where
  rev : Lfht.Keyed b.revLclCliHt env.xxh32 LocalClient.prename
  dist : Lfht.Keyed b.distCliHt env.xxh32 DistClient.key
  br : Lfht.Keyed b.lclBrHt env.xxh32 LocalBroker.authKey
  sub : Lfht.Keyed b.subscribeHt env.xxh32 SubscribeNode.sockid

omit [DecidableEq H] in
theorem SameTables.hashed {a b : DdBroker H} (h : SameTables a b) (ha : Hashed env a) :
    Hashed env b := by
  obtain ⟨-, -, -, -, -, hrev, hdist, hbr, hsub⟩ := h
  obtain ⟨h1, h2, h3, h4⟩ := ha
  constructor <;> simp only [hrev, hdist, hbr, hsub] <;> assumption

theorem Hashed.insertSubscription {self self' : DdBroker H} (hself : Hashed env self)
    {sockid : Frame} {key : CStr} {n : Nat}
    (h : insertSubscription env self sockid key = some (self', n)) : Hashed env self' := by
  unfold DoubleDecker.insertSubscription at h
  split at h
  · cases h
  · split at h
    · cases h
      exact hself
    · cases h
      exact { hself with sub := hself.sub.modify _ _ fun _ => rfl }
  · cases h
    exact { hself with sub := hself.sub.add ⟨[key], sockid⟩ }

theorem Hashed.removeSubscription {self self' : DdBroker H} (hself : Hashed env self)
    {sockid : Frame} {key : CStr} {n : Nat}
    (h : removeSubscription env self sockid key = some (self', n)) : Hashed env self' := by
  obtain rfl | ⟨root, rfl⟩ := removeSubscription_eq h
  · exact hself
  · exact { hself with sub := hself.sub.del _ _ }

/-- A client that goes with its subscriptions. -/
theorem Hashed.removeClient {self self' : DdBroker H} (hself : Hashed env self) {sockid : Frame}
    {c : LocalClient} (h : removeClient env self sockid c = some self') : Hashed env self' := by
  obtain ⟨⟨b, n⟩, hb, rfl⟩ := Option.map_eq_some_iff.mp h
  have hb' : Hashed env b := by
    obtain rfl | ⟨root, rfl⟩ := removeSubscriptions_eq hb
    · exact hself
    · exact { hself with sub := hself.sub.del _ _ }
  exact { hb' with rev := hb'.rev.del _ _ }

theorem Hashed.unregCli {self self' : DdBroker H} (hself : Hashed env self) {sockid cookie : Frame}
    {sends : List Send} (h : sCbUnregCli env self sockid cookie = .done self' sends) :
    Hashed env self' := by
  obtain ⟨-, rfl, -⟩ | ⟨c, -, hr, -⟩ := sCbUnregCli_eq_done h
  · exact hself
  · exact hself.removeClient hr

/-- **Every request stores under the hash of the key.** -/
theorem Hashed.effect {self self' : DdBroker H} (hself : Hashed env self) {r : Request}
    (h : r.effect env self = some self') : Hashed env self' := by
  cases r with
  | none =>
    cases h
    exact hself
  | register sockid hash ten clientName =>
    obtain ⟨o, ho, rfl⟩ := Option.map_eq_some_iff.mp h
    cases o with
    | none => exact hself
    | some b =>
      obtain ⟨-, -, -, -, rfl⟩ := insertLocalClient_eq ho
      exact { hself with rev := hself.rev.add ⟨_, _, _, _, _⟩ }
  | sub ln sockid key =>
    obtain ⟨⟨b, n⟩, hb, h⟩ := Option.bind_eq_some_iff.mp h
    obtain ⟨⟨root, n⟩, -, rfl⟩ := Option.map_eq_some_iff.mp h
    exact { hself.insertSubscription hb with }
  | unsub ln sockid key =>
    obtain ⟨⟨b, n⟩, hb, rfl⟩ := Option.map_eq_some_iff.mp h
    exact hself.removeSubscription hb
  | leave ln sockid => exact hself.removeClient h
  | expel ln => exact hself.removeClient h
  | expire =>
    obtain ⟨sends, hcheck⟩ := Outcome.broker_eq_some.mp h
    exact checkClients_induction (fun _ _ hb => { hb with }) (fun _ _ _ _ hb h => hb.unregCli h)
      hself hcheck
  | addBroker sockid cookie =>
    obtain ⟨o, ho, rfl⟩ := Option.map_eq_some_iff.mp h
    cases o with
    | none => exact { hself with br := hself.br.add ⟨sockid, cookie⟩ }
    | some b => exact hself
  | addDist sockid name dist =>
    cases h
    exact { hself with dist := hself.dist.add ⟨name, sockid, dist⟩ }
  | delDist sockid name =>
    cases h
    split
    · exact { hself with dist := hself.dist.del _ _ }
    · exact hself
  | dropDist name =>
    cases h
    split
    · exact { hself with dist := hself.dist.del _ _ }
    · exact hself
  | expireBrokers =>
    obtain ⟨sends, hcheck⟩ := Outcome.broker_eq_some.mp h
    refine checkBrokers_induction (fun _ _ hb => { hb with }) (fun _ _ hb => ?_) hself hcheck
    exact { hb with
      dist := fun e he => hb.dist e (List.mem_of_mem_filter he)
      br := fun e he => hb.br e (List.mem_of_mem_filter he) }

/-- **Every reachable broker has its nodes under the hashes of their keys.** -/
theorem Reachable.hashed {cfg : Config} {self : DdBroker H} (h : Reachable env cfg self) :
    Hashed env self := by
  refine h.induction ?_ fun _ _ _ _ hb hs => ?_
  · constructor <;> exact Lfht.keyed_nil _ _
  · obtain ⟨self₁, h₁, hsame⟩ := step_effect hs
    exact hsame.hashed (hb.effect h₁)

/-! ## What a match function does not refuse -/

/-- `memcmp` over the length of the key refuses a socket id that differs before either ends. -/
theorem memcmpKey_ne_false {stored key : Frame} :
    memcmpKey stored key ≠ some false ↔ key <+: stored ∨ stored <+: key := by
  unfold memcmpKey
  by_cases hle : key.length ≤ stored.length
  · rw [if_pos hle, ne_eq, Option.some.injEq, Bool.not_eq_false, List.isPrefixOf_iff_prefix]
    refine ⟨Or.inl, fun h => h.elim id fun h => ?_⟩
    rw [h.eq_of_length (Nat.le_antisymm h.length_le hle)]
  · rw [if_neg hle]
    have hnot : ¬ key <+: stored := fun h => hle h.length_le
    by_cases hp : stored <+: key
    · simp [hp, List.isPrefixOf_iff_prefix.mpr hp]
    · have hp' : stored.isPrefixOf key = false := by
        rw [← Bool.not_eq_true, List.isPrefixOf_iff_prefix]
        exact hp
      simp [hp, hp', hnot]

/-- A local client whose full name has the hash of the name and begins with it. -/
def RevNear (env : Env H) (name : CStr) (c : LocalClient) : Prop :=
  env.xxh32 c.prename = env.xxh32 (prenameKey name) ∧ name.bytes <+: c.prefixName.bytes

/-- A distant client whose full name has the hash of the name and begins with it. -/
def DistNear (env : Env H) (name : CStr) (d : DistClient) : Prop :=
  env.xxh32 d.key = env.xxh32 name.bytes ∧ name.bytes <+: d.name.bytes

/-- A local broker under the hash of the socket id and the cookie, one of whose socket id and the
one searched for begins with the other, whatever its cookie. -/
def BrokerNear (env : Env H) (sockid : Frame) (cookie : Cookie) (b : LocalBroker) : Prop :=
  env.xxh32 b.authKey = env.xxh32 (sockid ++ cookie.1) ∧
    (sockid <+: b.sockid ∨ b.sockid <+: sockid)

/-- A node of subscriptions under the hash of the socket id, one of whose socket id and the one
searched for begins with the other. -/
def SubscribeNear (env : Env H) (sockid : Frame) (n : SubscribeNode) : Prop :=
  env.xxh32 n.sockid = env.xxh32 sockid ∧ (sockid <+: n.sockid ∨ n.sockid <+: sockid)

/-! ## The four tables -/

/-- A match function that always answers loses nothing when the fault is dropped. -/
theorem some_join_lookup {α : Type} {t : Lfht H α} {h : H} {m : α → Option Bool}
    (hm : ∀ a, m a ≠ none) : some (t.lookup h m).join = t.lookup h m := by
  induction t with
  | nil => rfl
  | cons e t ih =>
    rw [Lfht.lookup]
    split
    · split
      · next hnone => exact absurd hnone (hm e.2)
      · rfl
      · exact ih
    · exact ih

theorem hasRev_exact_iff {self : DdBroker H} (hself : Hashed env self) (name : CStr) :
    Lfht.Exact (some (hashtableHasRevLocalNode env self name)) self.revLclCliHt.nodes
        (·.prefixName = name) ↔
      ¬ Lfht.Shadowed self.revLclCliHt.nodes (RevNear env name) (·.prefixName = name) := by
  rw [hashtableHasRevLocalNode, some_join_lookup fun c => by simp [matchLclNodePrename]]
  refine Lfht.exact_lookup_iff (fun e he => ?_) fun e he hname => ⟨?_, ?_⟩
  · rw [RevNear, hself.rev e he, matchLclNodePrename]
    simp [CStr.startsWith_iff]
  · rw [hself.rev e he, LocalClient.prename, hname]
  · rw [matchLclNodePrename, hname, startsWith_self]

theorem hasDist_exact_iff {self : DdBroker H} (hself : Hashed env self) (name : CStr) :
    Lfht.Exact (some (hashtableHasDistNode env self name)) self.distCliHt.nodes (·.name = name) ↔
      ¬ Lfht.Shadowed self.distCliHt.nodes (DistNear env name) (·.name = name) := by
  rw [hashtableHasDistNode, some_join_lookup fun d => by simp [matchDistNode]]
  refine Lfht.exact_lookup_iff (fun e he => ?_) fun e he hname => ⟨?_, ?_⟩
  · rw [DistNear, hself.dist e he, matchDistNode]
    simp [CStr.startsWith_iff]
  · rw [hself.dist e he, DistClient.key, hname]
  · rw [matchDistNode, hname, startsWith_self]

theorem hasBroker_exact_iff {self : DdBroker H} (hself : Hashed env self) (sockid : Frame)
    (cookie : Cookie) :
    Lfht.Exact (hashtableHasLocalBroker env self sockid cookie) self.lclBrHt.nodes
        (fun b => b.sockid = sockid ∧ b.cookie = cookie) ↔
      ¬ Lfht.Shadowed self.lclBrHt.nodes (BrokerNear env sockid cookie)
        (fun b => b.sockid = sockid ∧ b.cookie = cookie) := by
  refine Lfht.exact_lookup_iff (fun e he => ?_) ?_
  · rw [BrokerNear, hself.br e he, matchLclBroker, memcmpKey_ne_false]
  · rintro e he ⟨hs, hc⟩
    refine ⟨?_, ?_⟩
    · rw [hself.br e he, LocalBroker.authKey, hs, hc]
    · rw [matchLclBroker, hs, memcmpKey_self]

theorem hasSubscribe_exact_iff {self : DdBroker H} (hself : Hashed env self) (sockid : Frame) :
    Lfht.Exact (self.subscribeHt.lookup (env.xxh32 sockid) (matchSubscribeNode sockid))
        self.subscribeHt.nodes (·.sockid = sockid) ↔
      ¬ Lfht.Shadowed self.subscribeHt.nodes (SubscribeNear env sockid) (·.sockid = sockid) := by
  refine Lfht.exact_lookup_iff (fun e he => ?_) fun e he hs => ⟨?_, ?_⟩
  · rw [SubscribeNear, hself.sub e he, matchSubscribeNode, memcmpKey_ne_false]
  · rw [hself.sub e he, hs]
  · rw [matchSubscribeNode, hs, memcmpKey_self]

/-- **When the lookups are exact** — by full name among local and distant clients, by socket id and
cookie among brokers, and by socket id in the three functions on subscriptions: just when no node of
the same hash whose key begins alike stands in front of the one searched for. -/
theorem lookups_exact_iff {self : DdBroker H} (hself : Hashed env self) :
    (∀ name, Lfht.Exact (some (hashtableHasRevLocalNode env self name)) self.revLclCliHt.nodes
        (·.prefixName = name) ↔
      ¬ Lfht.Shadowed self.revLclCliHt.nodes (RevNear env name) (·.prefixName = name)) ∧
    (∀ name, Lfht.Exact (some (hashtableHasDistNode env self name)) self.distCliHt.nodes
        (·.name = name) ↔
      ¬ Lfht.Shadowed self.distCliHt.nodes (DistNear env name) (·.name = name)) ∧
    (∀ sockid cookie, Lfht.Exact (hashtableHasLocalBroker env self sockid cookie)
        self.lclBrHt.nodes (fun b => b.sockid = sockid ∧ b.cookie = cookie) ↔
      ¬ Lfht.Shadowed self.lclBrHt.nodes (BrokerNear env sockid cookie)
        (fun b => b.sockid = sockid ∧ b.cookie = cookie)) ∧
    ∀ sockid, Lfht.Exact (self.subscribeHt.lookup (env.xxh32 sockid) (matchSubscribeNode sockid))
        self.subscribeHt.nodes (·.sockid = sockid) ↔
      ¬ Lfht.Shadowed self.subscribeHt.nodes (SubscribeNear env sockid) (·.sockid = sockid) :=
  ⟨hasRev_exact_iff hself, hasDist_exact_iff hself, hasBroker_exact_iff hself,
    hasSubscribe_exact_iff hself⟩

/-! ### A name that is the head of another one -/

/-- A hash that takes everything for the same. -/
def lumpEnv : Env Unit where
  xxh32 _ := ()
  boxEasyAfternm plain _ _ := plain
  boxOpenEasyAfternm cipher _ _ := some cipher
  nonceIncrement := id

/-- A client of tenant `a` registers as `xy`. -/
def longNameRun : List Event :=
  [.router (challokMsg [1, 2, 3, 4, 5] (cookieOf 65) (text "hashA") (text "xy"))]

theorem longNameRun_hasRev : (runEvents lumpEnv (ddBrokerNew _ demoConfig) longNameRun).bind
    (hashtableHasRevLocalNode lumpEnv · (text "a.x")) =
      some ⟨text "xy", text "a.xy", text "a", cookieOf 65, [1, 2, 3, 4, 5]⟩ := by
  decide

theorem longNameRun_nodes :
    (runEvents lumpEnv (ddBrokerNew _ demoConfig) longNameRun).map (·.revLclCliHt.nodes) =
      some [⟨text "xy", text "a.xy", text "a", cookieOf 65, [1, 2, 3, 4, 5]⟩] := by
  decide

/-- The lookup of `a.xy` itself is exact. -/
theorem lookups_exact_iff_longName : ∃ self,
    runEvents lumpEnv (ddBrokerNew _ demoConfig) longNameRun = some self ∧
      Lfht.Exact (some (hashtableHasRevLocalNode lumpEnv self (text "a.xy")))
        self.revLclCliHt.nodes (·.prefixName = text "a.xy") := by
  obtain ⟨self, hself, hnodes⟩ := Option.map_eq_some_iff.mp longNameRun_nodes
  refine ⟨self, hself, ((lookups_exact_iff (Reachable.hashed ⟨_, .of_runEvents hself⟩)).1 _).mpr ?_⟩
  rw [hnodes, Lfht.shadowed_cons]
  exact fun h => h.1 rfl

/-- **Not every lookup is exact**: with `a.xy` in its place `a.x` is found, too. -/
theorem not_lookups_exact : ¬ ∀ (H : Type) [DecidableEq H] (env : Env H) (cfg : Config)
    (self : DdBroker H), Reachable env cfg self → ∀ name,
      Lfht.Exact (some (hashtableHasRevLocalNode env self name)) self.revLclCliHt.nodes
        (·.prefixName = name) := by
  intro hall
  obtain ⟨self, hself, hfound⟩ := Option.bind_eq_some_iff.mp longNameRun_hasRev
  obtain ⟨o, ho, hexact, -⟩ := hall _ lumpEnv demoConfig self ⟨_, .of_runEvents hself⟩ (text "a.x")
  rw [hfound, Option.some.injEq] at ho
  exact absurd (hexact _ ho.symm) (by decide)

end DoubleDecker
