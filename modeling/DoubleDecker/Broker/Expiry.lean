import DoubleDecker.Broker.Clocks
import DoubleDecker.Broker.Stores

/-!
# Broker/Expiry — what a tick of the client timeouts takes away

`s_check_cli_timeout` removes an entry at the fourth tick since it started again
(`Broker/Clocks`).  With the entry go the subscriptions of its socket id, and the subscriptions are
those of every client with this socket id: the entries of two tenants may share one.  So the tick
leaves the other entries alone if and only if none of those that stay shares a socket id that has
subscriptions with one that goes (`tickIsolates_iff`), as long as the trie loses nothing but what it
is told to (`Request.losesNothing`).
-/

namespace DoubleDecker

open Trie

variable {H : Type} [DecidableEq H] {env : Env H} {b b' : DdBroker H} {e : Event}
  {sends : List Send}

/-! ## The trie has every subscription -/

/-- **The trie has every subscription** of `subscribe_ht`, and perhaps more: an `UNSUB` deletes the
list of its socket id and takes one topic of it from the trie. -/
structure Covered {H : Type} (b : DdBroker H) : Prop where
  shaped : Shaped b.topicsTrie
  mem_held : ∀ s, ∀ t ∈ topicsOf b s, s ∈ held b.topicsTrie t.bytes
  nodup : ∀ s, (topicsOf b s).Nodup

omit [DecidableEq H] in
theorem Covered.congr {a b : DdBroker H} (h : Covered a) (htrie : b.topicsTrie = a.topicsTrie)
    (hsub : b.subscribeHt = a.subscribeHt) : Covered b := by
  have htop : ∀ s, topicsOf b s = topicsOf a s := fun s => by rw [topicsOf, topicsOf, hsub]
  exact ⟨htrie ▸ h.shaped, fun s t ht => htrie ▸ h.mem_held s t (htop s ▸ ht),
    fun s => htop s ▸ h.nodup s⟩

/-- What is left of a trie after some topics of a socket id were unsubscribed. -/
theorem unsubscribeAll_spec {root root' : Option Node} {s : Frame} {topics : List CStr}
    (hshaped : Shaped root) (hnd : topics.Nodup) (hheld : ∀ t ∈ topics, s ∈ held root t.bytes)
    (hsafe : safeFrom root (unsubscribes s topics))
    (h : unsubscribeAll s topics root = some root') :
    Shaped root' ∧ ∀ p s', s' ∈ held root' p ↔
      s' ∈ held root p ∧ ¬ (s' = s ∧ ∃ t ∈ topics, t.bytes = p) := by
  have hholds : Holds root {q | q.2 ∈ held root q.1} := ⟨hshaped, fun _ _ => Iff.rfl⟩
  obtain ⟨root₁, hexec, hholds'⟩ := exec_spec hholds (allowedFrom_unsubscribes hnd hheld) hsafe
  rw [unsubscribeAll_eq_exec, hexec, Option.some.injEq] at h
  subst h
  exact ⟨hholds'.shaped, fun p s' => (hholds'.mem p s').trans mem_pairsAfter_unsubscribes⟩

section

variable (hinj : Function.Injective env.xxh32) (hok : TablesOk env b)

include hinj hok

/-- The list of a socket id goes, and some of its topics go from the trie. -/
theorem Covered.drop (h : Covered b) {s : Frame} {topics : List CStr}
    (hsub : topics.Sublist (topicsOf b s)) (hsafe : safeFrom b.topicsTrie (unsubscribes s topics))
    {root : Option Node} (hroot : unsubscribeAll s topics b.topicsTrie = some root) :
    Covered { b with
      topicsTrie := root
      subscribeHt := b.subscribeHt.del (env.xxh32 s) (matchSubscribeNode s) } := by
  obtain ⟨hshaped, hheld⟩ := unsubscribeAll_spec h.shaped (hsub.nodup (h.nodup s))
    (fun t ht => h.mem_held s t (hsub.subset ht)) hsafe hroot
  have htop := hok.topicsOf_del hinj root s
  refine ⟨hshaped, fun s' t ht => ?_, fun s' => ?_⟩
  · rw [htop] at ht
    split at ht
    · cases ht
    · next hne => exact (hheld _ _).mpr ⟨h.mem_held s' t ht, fun hgone => hne hgone.1⟩
  · rw [htop]
    split
    · exact List.nodup_nil
    · exact h.nodup s'

/-- **A client that goes** leaves the trie with every subscription, and takes those of the socket id
with it. -/
theorem Covered.removeClient (h : Covered b) {s : Frame} {c : LocalClient}
    (hsafe : removalSafe b s) (hrem : removeClient env b s c = some b') :
    Covered b' ∧ ∀ p s', s' ∈ held b'.topicsTrie p ↔
      s' ∈ held b.topicsTrie p ∧ ¬ (s' = s ∧ ∃ t ∈ topicsOf b s, t.bytes = p) := by
  obtain ⟨⟨b₁, n⟩, hb, rfl⟩ := Option.map_eq_some_iff.mp hrem
  unfold removeSubscriptions at hb
  obtain ⟨sn, hsn, htop⟩ | ⟨hsn, htop⟩ := hok.lookup_topics hinj s
  · rw [hsn] at hb
    obtain ⟨root, hroot, hb⟩ := Option.bind_eq_some_iff.mp hb
    cases hb
    rw [htop] at hroot
    exact ⟨(h.drop hinj hok (List.Sublist.refl _) hsafe hroot).congr rfl rfl,
      (unsubscribeAll_spec h.shaped (h.nodup s) (h.mem_held s) hsafe hroot).2⟩
  · rw [hsn] at hb
    cases hb
    rw [htop]
    refine ⟨h.congr rfl rfl, fun p s' => ?_⟩
    simp [unlinkClient, hashtableUnlinkRevLocalNode, hashtableUnlinkLocalNode]

/-- **A new subscription** is in the trie. -/
theorem Covered.addSubscription (h : Covered b) {s : Frame} {key : CStr}
    (hsafe : (Op.subscribe key.bytes s).safe b.topicsTrie)
    (hadd : addSubscription env b s key = some b') : Covered b' := by
  obtain ⟨⟨b₁, n⟩, hb, hadd⟩ := Option.bind_eq_some_iff.mp hadd
  obtain ⟨⟨root, r⟩, hroot, rfl⟩ := Option.map_eq_some_iff.mp hadd
  have htop := hok.topicsOf_insert hinj hb
  have hnd : ∀ s, (topicsOf b₁ s).Nodup := fun s => hok.nodup_insert hinj hb (h.nodup s)
  obtain ⟨ht, rfl⟩ := insertSubscription_frame hb
  obtain ⟨m, r', hm, hwf, -, hsubs⟩ := nnTrieSubscribe_spec h.shaped key.nul_free hsafe
  have hroot' : nnTrieSubscribe b.topicsTrie key.bytes s = some (root, r) := hroot
  rw [hm, Option.some.injEq, Prod.mk.injEq] at hroot'
  obtain ⟨rfl, -⟩ := hroot'
  refine ⟨shaped_some hwf, fun s' t ht' => ?_, hnd⟩
  · have hold : t ∈ topicsOf b s' ∨ t = key ∧ s' = s := by
      have ht' : t ∈ topicsOf { b with subscribeHt := ht } s' := ht'
      rw [htop] at ht'
      split at ht'
      · next hnew =>
        obtain hold | hlast := List.mem_append.mp ht'
        · exact .inl hold
        · exact .inr ⟨List.mem_singleton.mp hlast, hnew.1⟩
      · exact .inl ht'
    rw [held_some, hsubs]
    split
    · next hkey =>
      rw [mem_zlistAppendUnique]
      exact hold.imp (fun hmem => hkey ▸ h.mem_held s' t hmem) And.right
    · next hkey => exact h.mem_held s' t (hold.resolve_right fun hnew => hkey (hnew.1 ▸ rfl))

/-- **An `UNSUB`** leaves the trie with every subscription. -/
theorem Covered.removeSubscription (h : Covered b) {s : Frame} {key : CStr} {n : Nat}
    (hsafe : key ∉ topicsOf b s ∨ (Op.unsubscribe key.bytes s).safe b.topicsTrie)
    (hrem : removeSubscription env b s key = some (b', n)) : Covered b' := by
  unfold DoubleDecker.removeSubscription at hrem
  obtain ⟨sn, hsn, htop⟩ | ⟨hsn, -⟩ := hok.lookup_topics hinj s
  · rw [hsn] at hrem
    obtain ⟨root, hroot, hrem⟩ := Option.bind_eq_some_iff.mp hrem
    cases hrem
    refine h.drop hinj hok (htop ▸ List.filter_sublist) ?_ hroot
    rw [htop, List.filter_eq]
    by_cases hkey : key ∈ topicsOf b s
    · rw [List.count_eq_one_of_mem (h.nodup s) hkey]
      have hone := hsafe.resolve_left (not_not.mpr hkey)
      cases hexec : (Op.unsubscribe key.bytes s).exec b.topicsTrie <;>
        simp [unsubscribes, safeFrom, hone, hexec]
    · rw [List.count_eq_zero_of_not_mem hkey]
      rfl
  · rw [hsn] at hrem
    cases hrem
    exact h

end

/-! ## A trie that loses nothing -/

variable (env) in
/-- **A request the trie is safe for**: none of its calls takes a branch that drops a list or
misreads one. -/
def Request.losesNothing (b : DdBroker H) : Request → Bool
  | .sub _ s key => (Op.subscribe key.bytes s).safe b.topicsTrie
  | .unsub _ s key =>
    decide (key ∉ topicsOf b s) || (Op.unsubscribe key.bytes s).safe b.topicsTrie
  | .leave _ s => removalSafe b s
  | .expel ln => removalSafe b ln.sockid
  | .expire => expireSafe env b.lclCliHt.nodes b
  | _ => true

section

variable (hinj : Function.Injective env.xxh32)

include hinj

/-- The loop of `s_check_cli_timeout`: which lists are left, and what the trie holds. -/
theorem Covered.checkClients {l : List LocalClient} : ∀ {b : DdBroker H} {sends : List Send},
    TablesOk env b → Covered b → l.Nodup → (∀ c ∈ l, c ∈ b.lclCliHt.nodes) →
    expireSafe env l b → DoubleDecker.checkClients env l b = .done b' sends →
    Covered b' ∧
      (∀ s, topicsOf b' s =
        if ∃ np ∈ l, ¬ b.cliTimeout np < 3 ∧ np.sockid = s then [] else topicsOf b s) ∧
      ∀ p s, s ∈ held b'.topicsTrie p ↔ s ∈ held b.topicsTrie p ∧
        ¬ ((∃ np ∈ l, ¬ b.cliTimeout np < 3 ∧ np.sockid = s) ∧
          ∃ t ∈ topicsOf b s, t.bytes = p) := by
  induction l with
  | nil =>
    intro b sends _ hcov _ _ _ h
    cases h
    exact ⟨hcov, by simp⟩
  | cons np rest ih =>
    intro b sends hok hcov hnd hsub hsafe h
    rw [List.nodup_cons] at hnd
    have hrest : ∀ c ∈ rest, c ≠ np := fun c hc he => hnd.1 (he ▸ hc)
    rw [DoubleDecker.checkClients] at h
    rw [expireSafe] at hsafe
    split at h
    · next hlt =>
      rw [if_pos hlt] at hsafe
      have hok₁ : TablesOk env { b with
          cliTimeout := fun c => if c = np then b.cliTimeout np + 1 else b.cliTimeout c } :=
        { hok with }
      obtain ⟨hcov', htop, hheld⟩ := ih hok₁ (hcov.congr rfl rfl) hnd.2
        (fun c hc => hsub c (List.mem_cons_of_mem _ hc)) hsafe h
      have hgone : ∀ s, (∃ c ∈ rest,
          ¬ (if c = np then b.cliTimeout np + 1 else b.cliTimeout c) < 3 ∧ c.sockid = s) ↔
          ∃ c ∈ np :: rest, ¬ b.cliTimeout c < 3 ∧ c.sockid = s := by
        intro s
        constructor
        · rintro ⟨c, hc, hge, hs⟩
          rw [if_neg (hrest c hc)] at hge
          exact ⟨c, List.mem_cons_of_mem _ hc, hge, hs⟩
        · rintro ⟨c, hc, hge, hs⟩
          obtain rfl | hc := List.mem_cons.mp hc
          · exact absurd hlt hge
          · exact ⟨c, hc, by rwa [if_neg (hrest c hc)], hs⟩
      simp only [hgone] at htop hheld
      exact ⟨hcov', htop, hheld⟩
    · next hge =>
      rw [if_neg hge, Bool.and_eq_true] at hsafe
      obtain ⟨b₁, s₁, s₂, h₁, h₂, -⟩ := Outcome.andThen_eq_done.mp h
      rw [h₁] at hsafe
      have hnp := hsub np List.mem_cons_self
      have hremove := unregCli_entry hinj hok hnp h₁
      have hsame : b₁.cliTimeout = b.cliTimeout := clocks_unregCli b _ _ _ _ h₁
      obtain ⟨htop₁, hmem⟩ := hok.removeClient_spec hinj hnp hremove
      obtain ⟨hcov₁, hheld₁⟩ := hcov.removeClient hinj hok hsafe.1 hremove
      obtain ⟨hcov', htop, hheld⟩ := ih (hok.unregCli hinj h₁) hcov₁ hnd.2
        (fun c hc => (hmem c).mpr ⟨hsub c (List.mem_cons_of_mem _ hc), hrest c hc⟩) hsafe.2 h₂
      rw [hsame] at htop hheld
      have hgone : ∀ s, (∃ c ∈ np :: rest, ¬ b.cliTimeout c < 3 ∧ c.sockid = s) ↔
          s = np.sockid ∨ ∃ c ∈ rest, ¬ b.cliTimeout c < 3 ∧ c.sockid = s := by
        intro s
        rw [List.exists_mem_cons_iff]
        exact or_congr_left ⟨fun hs => hs.2.symm, fun hs => ⟨hge, hs.symm⟩⟩
      refine ⟨hcov', fun s => ?_, fun p s => ?_⟩
      · rw [htop, htop₁]
        simp only [hgone]
        by_cases hs : s = np.sockid <;> simp [hs]
      · rw [hheld, hheld₁, htop₁]
        simp only [hgone]
        by_cases hs : s = np.sockid
        · subst hs
          simp
        · simp [hs]

/-- **Every request the trie is safe for** leaves it with every subscription. -/
theorem Covered.effect (hok : TablesOk env b) (h : Covered b) {r : Request}
    (hsafe : r.losesNothing env b) (heff : r.effect env b = some b') : Covered b' := by
  cases r with
  | none =>
    cases heff
    exact h
  | register sockid hash ten clientName =>
    obtain ⟨o, ho, rfl⟩ := Option.map_eq_some_iff.mp heff
    cases o with
    | none => exact h
    | some b₁ =>
      obtain ⟨-, -, -, -, rfl⟩ := insertLocalClient_eq ho
      exact h.congr rfl rfl
  | sub ln sockid key => exact h.addSubscription hinj hok hsafe heff
  | unsub ln sockid key =>
    obtain ⟨⟨b₁, n⟩, hb, rfl⟩ := Option.map_eq_some_iff.mp heff
    refine h.removeSubscription hinj hok ?_ hb
    simpa [Request.losesNothing] using hsafe
  | leave ln sockid => exact (h.removeClient hinj hok hsafe heff).1
  | expel ln => exact (h.removeClient hinj hok hsafe heff).1
  | expire =>
    obtain ⟨sends, hcheck⟩ := Outcome.broker_eq_some.mp heff
    exact (h.checkClients hinj hok hok.lclNodup.of_map (fun _ hc => hc) hsafe hcheck).1
  | addBroker sockid cookie =>
    obtain ⟨o, ho, rfl⟩ := Option.map_eq_some_iff.mp heff
    split <;> exact h.congr rfl rfl
  | addDist sockid name dist =>
    cases heff
    exact h.congr rfl rfl
  | delDist sockid name =>
    cases heff
    split <;> exact h.congr rfl rfl
  | dropDist name =>
    cases heff
    split <;> exact h.congr rfl rfl
  | expireBrokers =>
    obtain ⟨sends, hcheck⟩ := Outcome.broker_eq_some.mp heff
    exact checkBrokers_induction (P := Covered) (fun _ _ h => h.congr rfl rfl)
      (fun _ _ h => h.congr rfl rfl) h hcheck

/-! ## One tick -/

/-- **A tick leaves the other clients alone** — an entry that stays is in both tables, and the
subscriptions of its socket id and their places in the trie are those from before. -/
structure TickIsolates {H : Type} (b b' : DdBroker H) : Prop where
  rev : ∀ c, c ∈ b'.revLclCliHt.nodes ↔ c ∈ b'.lclCliHt.nodes
  topics : ∀ c ∈ b'.lclCliHt.nodes, topicsOf b' c.sockid = topicsOf b c.sockid
  trie : ∀ c ∈ b'.lclCliHt.nodes, ∀ p,
    c.sockid ∈ held b'.topicsTrie p ↔ c.sockid ∈ held b.topicsTrie p

/-- No entry that goes at the next tick shares a socket id that has subscriptions with one that
stays. -/
def expiryApart {H : Type} (b : DdBroker H) : Bool :=
  b.lclCliHt.nodes.all fun np => b.lclCliHt.nodes.all fun c =>
    decide (b.cliTimeout np < 3 ∨ 3 ≤ b.cliTimeout c ∨ np.sockid ≠ c.sockid ∨
      topicsOf b c.sockid = [])

omit hinj [DecidableEq H] in
theorem expiryApart_iff {b : DdBroker H} : expiryApart b = true ↔
    ∀ np ∈ b.lclCliHt.nodes, ∀ c ∈ b.lclCliHt.nodes, 3 ≤ b.cliTimeout np → b.cliTimeout c < 3 →
      np.sockid = c.sockid → topicsOf b c.sockid = [] := by
  simp only [expiryApart, List.all_eq_true, decide_eq_true_eq]
  refine forall₂_congr fun np _ => forall₂_congr fun c _ => ?_
  constructor
  · rintro (h | h | h | h) hnp hc hs
    · omega
    · omega
    · exact absurd hs h
    · exact h
  · intro h
    by_cases hnp : b.cliTimeout np < 3
    · exact .inl hnp
    · by_cases hc : 3 ≤ b.cliTimeout c
      · exact .inr (.inl hc)
      · by_cases hs : np.sockid = c.sockid
        · exact .inr (.inr (.inr (h (by omega) (by omega) hs)))
        · exact .inr (.inr (.inl hs))

/-- **When a tick leaves the other clients alone.** -/
theorem tickIsolates_iff (hok : TablesOk env b) (hcov : Covered b)
    (hsafe : expireSafe env b.lclCliHt.nodes b)
    (h : step env b .checkCliTimeout = .done b' sends) :
    TickIsolates b b' ↔ expiryApart b = true := by
  obtain ⟨-, htop, hheld⟩ :=
    hcov.checkClients hinj hok hok.lclNodup.of_map (fun _ hc => hc) hsafe h
  have hnodes := (tick_cliTimeout hinj hok h).1
  rw [expiryApart_iff]
  constructor
  · intro hiso np hnp c hc hgoes hstays hs
    have htopics := hiso.topics c ((hnodes c).mpr ⟨hc, hstays⟩)
    rw [htop, if_pos ⟨np, hnp, by omega, hs⟩] at htopics
    exact htopics.symm
  · intro hapart
    have hnone : ∀ c ∈ b'.lclCliHt.nodes,
        (∃ np ∈ b.lclCliHt.nodes, ¬ b.cliTimeout np < 3 ∧ np.sockid = c.sockid) →
        topicsOf b c.sockid = [] := by
      rintro c hc ⟨np, hnp, hgoes, hs⟩
      obtain ⟨hold, hstays⟩ := (hnodes c).mp hc
      exact hapart np hnp c hold (by omega) hstays hs
    refine ⟨(hok.step hinj h).same, fun c hc => ?_, fun c hc p => ?_⟩
    · rw [htop]
      split
      · next hex => exact (hnone c hc hex).symm
      · rfl
    · rw [hheld]
      refine ⟨And.left, fun hmem => ⟨hmem, ?_⟩⟩
      rintro ⟨hex, t, ht, -⟩
      rw [hnone c hc hex] at ht
      cases ht

end

/-! ## Runs -/

variable (env) in
/-- **What a tick should do** — remove the clients for which it is the fourth tick since they
started again, and leave the others alone. -/
structure TickRight (cfg : Config) (es : List Event) (b b' : DdBroker H) : Prop where
  expires : ∀ c ∈ b.lclCliHt.nodes, c ∉ b'.lclCliHt.nodes ↔ ticksSince env cfg es c + 1 = 4
  isolates : TickIsolates b b'

variable (env) in
/-- **Every tick of a run** does what it should. -/
def TicksRight (cfg : Config) (es : List Event) : Prop :=
  ∀ later before b b', es = later ++ .checkCliTimeout :: before →
    runEvents env (ddBrokerNew H cfg) before = some b →
    runEvents env (ddBrokerNew H cfg) (.checkCliTimeout :: before) = some b' →
    TickRight env cfg before b b'

variable (env) in
/-- **An event the expiry stands** — the trie is safe for it, and a tick takes away no subscription
of a client that stays. -/
def expirySafe (b : DdBroker H) (e : Event) : Bool :=
  (request env b e).losesNothing env b && (decide (e ≠ .checkCliTimeout) || expiryApart b)

/-- **A tick removes a client exactly at the fourth one** since it started again, in every run. -/
theorem Run.expires (hinj : Function.Injective env.xxh32) {cfg : Config} {es : List Event}
    (hrun : Run env cfg es b) (h : DoubleDecker.step env b .checkCliTimeout = .done b' sends)
    {c : LocalClient} (hc : c ∈ b.lclCliHt.nodes) :
    c ∉ b'.lclCliHt.nodes ↔ ticksSince env cfg es c + 1 = 4 := by
  obtain ⟨hclock, hle⟩ := hrun.cliTimeout_eq hinj hc
  rw [(tick_cliTimeout hinj (Reachable.tablesOk hinj ⟨es, hrun⟩) h).1, hclock]
  constructor
  · intro hgone
    by_contra hne
    exact hgone ⟨hc, by omega⟩
  · intro hfour hstays
    omega

/-- In a run the trie is safe for, it has every subscription. -/
theorem RunIf.covered (hinj : Function.Injective env.xxh32) {cfg : Config} {es : List Event}
    (h : RunIf env cfg (expirySafe env) es b) : Covered b := by
  induction h with
  | init => exact ⟨shaped_none, fun s t ht => (List.not_mem_nil ht).elim, fun s => List.nodup_nil⟩
  | step hrun _ hc hs ih =>
    obtain ⟨b₁, heff, hsame⟩ := step_effect hs
    rw [expirySafe, Bool.and_eq_true] at hc
    exact (ih.effect hinj (Reachable.tablesOk hinj ⟨_, hrun.run⟩) hc.1 heff).congr
      hsame.topicsTrie hsame.subscribeHt

/-- **Client expiry is exact and isolated** in every run whose steps the expiry stands. -/
theorem ticksRight (hinj : Function.Injective env.xxh32) {cfg : Config} {es : List Event}
    (h : RunIf env cfg (expirySafe env) es b) : TicksRight env cfg es := by
  induction h with
  | init =>
    intro later before b b' hes
    cases later <;> cases hes
  | @step es b₁ b₂ e sends hrun hen hc hs ih =>
    intro later before b b' hes hbefore hafter
    cases later with
    | cons e' later =>
      cases hes
      exact ih later before b b' rfl hbefore hafter
    | nil =>
      cases hes
      rw [hrun.run.runEvents] at hbefore
      rw [(Run.step hrun.run hen hs).runEvents] at hafter
      cases hbefore
      cases hafter
      rw [expirySafe, Bool.and_eq_true] at hc
      refine ⟨fun c hmem => hrun.run.expires hinj hs hmem, ?_⟩
      exact (tickIsolates_iff hinj (Reachable.tablesOk hinj ⟨_, hrun.run⟩) (hrun.covered hinj) hc.1
        hs).mpr (by simpa using hc.2)

/-- A client registers, subscribes to `x` and is not heard of again. -/
def lapsedRun : List Event :=
  List.replicate 4 .checkCliTimeout ++
    [.router (subMsg .sub [1, 2, 3, 4, 5] (cookieOf 65) (text "x")),
      .router (challokMsg [1, 2, 3, 4, 5] (cookieOf 65) (text "hashA") (text "c"))]

theorem ticksRight_lapsedRun :
    (∃ self, runEvents plainEnv (ddBrokerNew _ demoConfig) lapsedRun = some self) ∧
      TicksRight plainEnv demoConfig lapsedRun := by
  have hsome : (runEvents plainEnv (ddBrokerNew _ demoConfig) lapsedRun).isSome := by
    decide +kernel
  obtain ⟨self, hself⟩ := Option.isSome_iff_exists.mp hsome
  exact ⟨⟨self, hself⟩, ticksRight Function.injective_id
    (.of_runEvents (by decide +kernel) hself)⟩

/-- Clients of the tenants `a` and `b` register with one socket id, and that of `b` subscribes to
`x` and is heard of again after three ticks. -/
def sharedRun : List Event :=
  .router ([1, 2, 3, 4, 5] :: ddMsg .ping [(cookieOf 66).1]) ::
    List.replicate 3 .checkCliTimeout ++
    [.router (subMsg .sub [1, 2, 3, 4, 5] (cookieOf 66) (text "x")),
      .router (challokMsg [1, 2, 3, 4, 5] (cookieOf 66) (text "hashB") (text "d")),
      .router (challokMsg [1, 2, 3, 4, 5] (cookieOf 65) (text "hashA") (text "c"))]

/-- The client of the tenant `b`. -/
def sharer : LocalClient := ⟨text "d", text "b.d", text "b", cookieOf 66, [1, 2, 3, 4, 5]⟩

theorem sharedRun_tick :
    (runEvents plainEnv (ddBrokerNew _ demoConfig) sharedRun).map
        (fun self => topicsOf self [1, 2, 3, 4, 5]) = some [text "b.x"] ∧
      (runEvents plainEnv (ddBrokerNew _ demoConfig) (.checkCliTimeout :: sharedRun)).map
        (fun self => (decide (sharer ∈ self.lclCliHt.nodes), topicsOf self [1, 2, 3, 4, 5])) =
          some (true, []) := by
  decide +kernel

/-- **A tick may take away what another client subscribed to.** -/
theorem not_ticksRight : ¬ ∀ (H : Type) [DecidableEq H] (env : Env H),
    Function.Injective env.xxh32 → ∀ (cfg : Config) (es : List Event) (b : DdBroker H),
    Run env cfg es b → TicksRight env cfg es := by
  intro hall
  obtain ⟨hbefore, hafter⟩ := sharedRun_tick
  obtain ⟨b, hb, htop⟩ := Option.map_eq_some_iff.mp hbefore
  obtain ⟨b', hb', hpair⟩ := Option.map_eq_some_iff.mp hafter
  obtain ⟨hmem, htop'⟩ := Prod.mk.inj hpair
  have hright := hall _ plainEnv Function.injective_id demoConfig _ b' (.of_runEvents hb') []
    sharedRun b b' rfl hb hb'
  have htopics := hright.isolates.topics sharer (of_decide_eq_true hmem)
  rw [show sharer.sockid = [1, 2, 3, 4, 5] from rfl, htop, htop'] at htopics
  cases htopics

end DoubleDecker
