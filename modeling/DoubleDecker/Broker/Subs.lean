import DoubleDecker.Broker.Stores

/-!
# Broker/Subs — one `SUB`, one `UNSUB`

What the two commands do to the stores and what they send, and when an `UNSUB` removes the one pair
it names (`unsub_exact_iff`): `remove_subscription` deletes the node of the socket id with all its
topics, but takes only the one it was asked for out of the trie.
-/

namespace DoubleDecker

open Trie

variable {H : Type} [DecidableEq H] {env : Env H} {b b' : DdBroker H} {e : Event}
  {ln : LocalClient} {s : Frame} {t : CStr} {sends : List Send}

/-! ## The two commands -/

/-- The message behind a subscription or its end. -/
theorem exists_of_subscription {r : Request} (h : request env b e = r)
    (hr : r = .sub ln s t ∨ r = .unsub ln s t) :
    ∃ msg cmd cookie rest topic scopestr, e = .router msg ∧
      routerCmd msg = some (s, cmd, cookie :: rest) ∧ acceptedFor env b s cookie = some ln ∧
      subRequest b.scope ln rest = some (topic, scopestr, t) ∧
      (cmd = .sub ∧ r = .sub ln s t ∨ cmd = .unsub ∧ r = .unsub ln s t) := by
  cases e with
  | router msg =>
    simp only [request] at h
    split at h
    · subst h; simp at hr
    · next source cmd rest hmsg =>
      unfold routerRequest at h
      split at h
      · next cookie rest =>
        split at h
        · subst h; simp at hr
        · next ln' hacc =>
          split at h
          · subst h; simp at hr
          · next topic scopestr key hreq =>
            subst h
            obtain h | h := hr
            · cases h
              exact ⟨msg, .sub, cookie, rest, topic, scopestr, rfl, hmsg, hacc, hreq,
                Or.inl ⟨rfl, rfl⟩⟩
            · cases h
      · next cookie rest =>
        split at h
        · subst h; simp at hr
        · next ln' hacc =>
          split at h
          · subst h; simp at hr
          · next topic scopestr key hreq =>
            subst h
            obtain h | h := hr
            · cases h
            · cases h
              exact ⟨msg, .unsub, cookie, rest, topic, scopestr, rfl, hmsg, hacc, hreq,
                Or.inr ⟨rfl, rfl⟩⟩
      · split at h <;> subst h <;> simp at hr
      · unfold challokRequest at h
        split at h
        · simp only at h
          split at h
          · split at h <;> subst h <;> simp at hr
          · split at h
            · subst h; simp at hr
            · split at h <;> subst h <;> simp at hr
        · subst h; simp at hr
      · split at h
        · split at h
          · subst h; simp at hr
          · split at h <;> subst h <;> simp at hr
        · subst h; simp at hr
      · split at h <;> subst h <;> simp at hr
      · subst h; simp at hr
  | dealer msg =>
    simp only [request] at h
    split at h
    · subst h; simp at hr
    · unfold dealerRequest at h
      split at h
      · split at h
        · split at h <;> subst h <;> simp at hr
        · subst h; simp at hr
      · subst h; simp at hr
  | subN | subS | pubN | pubS | register | heartbeat | checkCliTimeout | checkBrTimeout =>
    subst h
    simp [request] at hr

/-- **What a `SUB` does** — it is answered, entered in both stores, and told to the sub sockets when
the trie did not hold the pair. -/
theorem step_sub (h : request env b e = .sub ln s t) : ∃ reply, step env b e =
    match insertSubscription env b s t with
    | none => .fault [.rsock s reply]
    | some (b', _) =>
      match nnTrieSubscribe b'.topicsTrie t.bytes s with
      | none => .fault [.rsock s reply]
      | some (root, n) => .done { b'.touch ln with topicsTrie := root }
          (if n = 2 then .rsock s reply :: tellSubs (b'.touch ln) 1 t else [.rsock s reply]) := by
  obtain ⟨msg, cmd, cookie, rest, topic, scopestr, rfl, hmsg, hacc, hreq, ⟨rfl, -⟩ | ⟨-, hr⟩⟩ :=
    exists_of_subscription h (Or.inl rfl)
  · refine ⟨ddMsg .subok [topic.bytes, scopestr.bytes], ?_⟩
    rw [step_router hmsg]
    show sCbSub env b s cookie rest = _
    have hscope : (b.touch ln).scope = b.scope := rfl
    unfold sCbSub
    simp only [acceptedFor_eq_some.mp hacc, hscope, hreq, insertSubscription_touch]
    cases insertSubscription env b s t with
    | none => rfl
    | some p =>
      have htrie : (p.1.touch ln).topicsTrie = p.1.topicsTrie := rfl
      simp only [Option.map_some, htrie]
      cases nnTrieSubscribe p.1.topicsTrie t.bytes s with
      | none => rfl
      | some q => rfl
  · cases hr

/-- **What an `UNSUB` does** — it asks `remove_subscription`, and tells the sub sockets when that
returned a number other than 0. -/
theorem step_unsub (h : request env b e = .unsub ln s t) : step env b e =
    match removeSubscription env b s t with
    | none => .fault []
    | some (b', n) => .done (b'.touch ln) (if n = 0 then [] else tellSubs (b'.touch ln) 0 t) := by
  obtain ⟨msg, cmd, cookie, rest, topic, scopestr, rfl, hmsg, hacc, hreq, ⟨-, hr⟩ | ⟨rfl, -⟩⟩ :=
    exists_of_subscription h (Or.inr rfl)
  · cases hr
  · rw [step_router hmsg]
    show sCbUnsub env b s cookie rest = _
    have hscope : (b.touch ln).scope = b.scope := rfl
    unfold sCbUnsub
    simp only [acceptedFor_eq_some.mp hacc, hscope, hreq, removeSubscription_touch]
    cases removeSubscription env b s t with
    | none => rfl
    | some p => rfl

/-! ## The pairs after an `UNSUB` -/

/-- **An `UNSUB` that removes exactly its pair**: it succeeds, both stores lose the pair and nothing
else, `remove_subscription` returns a number other than 0 just when the pair was there, and when it
was not nothing is sent. -/
def UnsubExact (env : Env H) (b : DdBroker H) (e : Event) (s : Frame) (t : CStr) : Prop :=
  ∃ b' sends, step env b e = .done b' sends ∧
    (∀ s' t', t' ∈ topicsOf b' s' ↔ t' ∈ topicsOf b s' ∧ ¬ (s' = s ∧ t' = t)) ∧
    (∀ key s', s' ∈ held b'.topicsTrie key ↔
      s' ∈ held b.topicsTrie key ∧ ¬ (s' = s ∧ key = t.bytes)) ∧
    (∃ b₁ n, removeSubscription env b s t = some (b₁, n) ∧ (n ≠ 0 ↔ t ∈ topicsOf b s)) ∧
    (t ∉ topicsOf b s → sends = [])

section

variable (hinj : Function.Injective env.xxh32) (hok : TablesOk env b)

include hinj hok

/-- `remove_subscription` with the node of the socket id or without it. -/
theorem removeSubscription_cases (s : Frame) (t : CStr) :
    (topicsOf b s = [] ∧ removeSubscription env b s t = some (b, 0)) ∨
    removeSubscription env b s t =
      (unsubscribeAll s ((topicsOf b s).filter (· = t)) b.topicsTrie).map fun root =>
        ({ b with
          topicsTrie := root
          subscribeHt := b.subscribeHt.del (env.xxh32 s) (matchSubscribeNode s) },
          (topicsOf b s).length) := by
  unfold removeSubscription
  obtain ⟨sn, hsn, htop⟩ | ⟨hsn, htop⟩ := hok.lookup_topics hinj s
  · rw [hsn, ← htop]
    right
    simp only
    cases unsubscribeAll s (sn.topics.filter (· = t)) b.topicsTrie <;> rfl
  · rw [hsn]
    exact Or.inl ⟨htop, rfl⟩

/-- **After an `UNSUB` the socket id has no topics.** -/
theorem topicsOf_unsub {n : Nat} (h : removeSubscription env b s t = some (b', n))
    (s' : Frame) : topicsOf b' s' = if s' = s then [] else topicsOf b s' := by
  obtain ⟨htop, heq⟩ | heq := removeSubscription_cases hinj hok s t
  · rw [heq] at h
    cases h
    split
    · next hs => rw [hs, htop]
    · rfl
  · rw [heq] at h
    obtain ⟨root, -, h⟩ := Option.map_eq_some_iff.mp h
    cases h
    exact hok.topicsOf_del hinj root s s'

/-- The stores after the only topic was removed. -/
theorem unsub_only (hst : StoresOk b) (hone : topicsOf b s = [t])
    (hsafe : (Op.unsubscribe t.bytes s).safe b.topicsTrie) :
    ∃ root, removeSubscription env b s t = some ({ b with
        topicsTrie := root
        subscribeHt := b.subscribeHt.del (env.xxh32 s) (matchSubscribeNode s) }, 1) ∧
      ∀ key, held root key =
        if key = t.bytes then (held b.topicsTrie key).erase s else held b.topicsTrie key := by
  have hmem : s ∈ held b.topicsTrie t.bytes := by
    rw [hst.holds.mem, mem_pairsOf, hone]
    exact List.mem_singleton_self t
  obtain ⟨root, r, hroot, -, hheld⟩ := nnTrieUnsubscribe_spec hst.holds.shaped hmem hsafe
  refine ⟨root, ?_, hheld⟩
  obtain ⟨htop, -⟩ | heq := removeSubscription_cases hinj hok s t
  · rw [hone] at htop
    cases htop
  · have hfilter : [t].filter (· = t) = [t] := by simp
    rw [heq, hone, hfilter]
    simp [unsubscribeAll, hroot]

/-- **An `UNSUB` removes exactly its pair just when the socket id has no topics, or this one only
and the trie is safe.** -/
theorem unsub_exact_iff (hst : StoresOk b) (hreq : request env b e = .unsub ln s t) :
    UnsubExact env b e s t ↔ topicsOf b s = [] ∨
      (topicsOf b s = [t] ∧ (Op.unsubscribe t.bytes s).safe b.topicsTrie) := by
  have hnotrie : topicsOf b s = [] → ∀ key s', s' ∈ held b.topicsTrie key ↔
      s' ∈ held b.topicsTrie key ∧ ¬ (s' = s ∧ key = t.bytes) := by
    rintro htop key s'
    refine ⟨fun h => ⟨h, ?_⟩, And.left⟩
    rintro ⟨rfl, rfl⟩
    rw [hst.holds.mem, mem_pairsOf, htop] at h
    exact absurd h List.not_mem_nil
  constructor
  · rintro ⟨b', sends, hstep, htopics, htrie, -, -⟩
    rw [step_unsub hreq] at hstep
    cases hrem : removeSubscription env b s t with
    | none => rw [hrem] at hstep; cases hstep
    | some p =>
      have hremoved : removeSubscription env b s t = some (p.1, p.2) := hrem
      rw [hrem] at hstep
      cases hstep
      -- the socket id keeps no topic, so that it had none besides this one
      have hnone : topicsOf (p.1.touch ln) s = [] :=
        (topicsOf_unsub hinj hok hremoved s).trans (if_pos rfl)
      have hall : ∀ t' ∈ topicsOf b s, t' = t := by
        intro t' ht'
        by_contra hne
        have hstill := (htopics s t').mpr ⟨ht', fun h => hne h.2⟩
        rw [hnone] at hstill
        exact absurd hstill List.not_mem_nil
      rcases htop : topicsOf b s with _ | ⟨t₁, rest⟩
      · exact Or.inl rfl
      · have hnd := hst.nodup s
        rw [htop] at hall hnd
        obtain rfl := hall t₁ List.mem_cons_self
        have hrest : rest = [] := by
          cases rest with
          | nil => rfl
          | cons t₂ rest =>
            obtain rfl := hall t₂ (by simp)
            simp at hnd
        subst hrest
        refine Or.inr ⟨rfl, ?_⟩
        -- an unsafe call would lose a pair of another topic
        by_contra hsafe
        have hmem : s ∈ held b.topicsTrie t₁.bytes := by
          rw [hst.holds.mem, mem_pairsOf, htop]
          exact List.mem_singleton_self t₁
        have hfilter : [t₁].filter (· = t₁) = [t₁] := by simp
        obtain ⟨htop', -⟩ | heq := removeSubscription_cases hinj hok s t₁
        · rw [htop] at htop'
          cases htop'
        · rw [heq, htop, hfilter] at hrem
          obtain hu | ⟨root', r, hu, key, s', hkey, hs', hlost⟩ :=
            nnTrieUnsubscribe_unsafe hst.holds.shaped hmem hsafe
          · simp [unsubscribeAll, hu] at hrem
          · simp only [unsubscribeAll, hu, Option.bind_eq_bind, Option.bind_some,
              Option.map_some, Option.some.injEq] at hrem
            subst hrem
            exact hlost ((htrie key s').mpr ⟨hs', fun h => hkey h.2⟩)
  · rintro (htop | ⟨hone, hsafe⟩)
    · -- nothing is there, and nothing happens but that an empty node goes
      obtain ⟨b₁, hrem, htrie⟩ : ∃ b₁, removeSubscription env b s t = some (b₁, 0) ∧
          b₁.topicsTrie = b.topicsTrie := by
        obtain ⟨-, heq⟩ | heq := removeSubscription_cases hinj hok s t
        · exact ⟨b, heq, rfl⟩
        · rw [htop] at heq
          exact ⟨_, heq, rfl⟩
      refine ⟨b₁.touch ln, [], by rw [step_unsub hreq, hrem]; rfl, fun s' t' => ?_, ?_,
        ⟨b₁, 0, hrem, by simp [htop]⟩, fun _ => rfl⟩
      · rw [show topicsOf (b₁.touch ln) s' = topicsOf b₁ s' from rfl,
          topicsOf_unsub hinj hok hrem s']
        split
        · next hs => simp [hs, htop]
        · next hs => simp [hs]
      · rw [show (b₁.touch ln).topicsTrie = b.topicsTrie from htrie]
        exact hnotrie htop
    · obtain ⟨root, hrem, hheld⟩ := unsub_only hinj hok hst hone hsafe
      refine ⟨_, _, by rw [step_unsub hreq, hrem], fun s' t' => ?_, fun key s' => ?_,
        ⟨_, 1, hrem, by simp [hone]⟩, fun h => absurd (hone ▸ List.mem_singleton_self t) h⟩
      · refine Iff.trans (iff_of_eq (congrArg (t' ∈ ·) (topicsOf_unsub hinj hok hrem s'))) ?_
        split
        · next hs => simp [hs, hone]
        · next hs => simp [hs]
      · show s' ∈ held root key ↔ _
        rw [hheld]
        split
        · next hk =>
          rw [(hst.holds.shaped.nodup key).mem_erase_iff]
          simp [hk, and_comm]
        · next hk => simp [hk]

end

/-! ### One topic of two -/

deriving instance DecidableEq for Request

/-- The client of `twoTopics`. -/
def topicsClient : LocalClient := ⟨text "c", text "a.c", text "a", cookieOf 65, [1, 2, 3, 4, 5]⟩

/-- The end of the subscription to `x`. -/
def unsubX : Event := .router (subMsg .unsub [1, 2, 3, 4, 5] (cookieOf 65) (text "x"))

theorem oneTopic_unsub : (runEvents plainEnv (ddBrokerNew _ demoConfig) twoTopics.tail).map
    (fun b => (request plainEnv b unsubX, topicsOf b [1, 2, 3, 4, 5],
      (Op.unsubscribe (text "a.x").bytes [1, 2, 3, 4, 5]).safe b.topicsTrie)) =
    some (.unsub topicsClient [1, 2, 3, 4, 5] (text "a.x"), [text "a.x"], true) := by
  decide +kernel

/-- The only topic of a client is unsubscribed. -/
theorem unsub_exact_oneTopic : ∃ b : DdBroker (List UInt8), Reachable plainEnv demoConfig b ∧
    UnsubExact plainEnv b unsubX [1, 2, 3, 4, 5] (text "a.x") := by
  obtain ⟨b, hb, hfacts⟩ := Option.map_eq_some_iff.mp oneTopic_unsub
  simp only [Prod.mk.injEq] at hfacts
  have hrun : RunIf plainEnv demoConfig (storesSafe plainEnv) twoTopics.tail b :=
    .of_runEvents (by decide) hb
  have hreach : Reachable plainEnv demoConfig b := ⟨_, hrun.run⟩
  refine ⟨b, hreach, (unsub_exact_iff Function.injective_id (hreach.tablesOk Function.injective_id)
    (hrun.storesOk Function.injective_id fun _ _ => id) hfacts.1).mpr (Or.inr hfacts.2)⟩

theorem twoTopics_unsub : (runEvents plainEnv (ddBrokerNew _ demoConfig) twoTopics).map
    (fun b => (request plainEnv b unsubX, topicsOf b [1, 2, 3, 4, 5])) =
    some (.unsub topicsClient [1, 2, 3, 4, 5] (text "a.x"), [text "a.x", text "a.y"]) := by
  decide +kernel

/-- **An `UNSUB` does not always remove exactly its pair** — of two topics it removes both from the
list of the socket id. -/
theorem not_unsub_exact : ¬ ∀ (H : Type) [DecidableEq H] (env : Env H),
    Function.Injective env.xxh32 → ∀ (b : DdBroker H), TablesOk env b → StoresOk b →
    ∀ (e : Event) (ln : LocalClient) (s : Frame) (t : CStr),
    request env b e = .unsub ln s t → UnsubExact env b e s t := by
  intro hall
  obtain ⟨b, hb, hfacts⟩ := Option.map_eq_some_iff.mp twoTopics_unsub
  simp only [Prod.mk.injEq] at hfacts
  have hrun : RunIf plainEnv demoConfig (storesSafe plainEnv) twoTopics b :=
    .of_runEvents (by decide +kernel) hb
  have hok := Reachable.tablesOk Function.injective_id ⟨_, hrun.run⟩
  obtain ⟨b', sends, hstep, htopics, -, ⟨b₁, n, hrem, -⟩, -⟩ :=
    hall _ plainEnv Function.injective_id b hok
      (hrun.storesOk Function.injective_id fun _ _ => id) unsubX topicsClient [1, 2, 3, 4, 5]
      (text "a.x") hfacts.1
  rw [step_unsub hfacts.1, hrem] at hstep
  cases hstep
  have hstill := (htopics [1, 2, 3, 4, 5] (text "a.y")).mpr ⟨by rw [hfacts.2]; simp, by decide⟩
  have hgone := topicsOf_unsub Function.injective_id hok hrem [1, 2, 3, 4, 5]
  rw [if_pos rfl] at hgone
  rw [show topicsOf (b₁.touch topicsClient) [1, 2, 3, 4, 5] = [] from hgone] at hstill
  exact absurd hstill List.not_mem_nil

end DoubleDecker
