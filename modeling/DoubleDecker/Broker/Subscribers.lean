import DoubleDecker.Broker.Isolation
import DoubleDecker.Broker.Publications
import DoubleDecker.Trie.Backed

/-!
# Broker/Subscribers — a publication reaches who asked for it

    SUB ──▸ key in the trie        PUB ──▸ topic ──lookup──▸ socket ids

The two stores drift apart and the trie miscounts, but a broker never makes a subscriber up: in
every run, a `PUB` goes to a socket id from which a `SUB` was taken, for a key that is a prefix of
the topic (`published_to_subscriber`).
-/

namespace DoubleDecker

open Trie

variable {H : Type} [DecidableEq H] {env : Env H}

/-! ## What a step does to the trie -/

section

variable {I : Option Node → Prop} {b b' : DdBroker H} {sockid : Frame} {n : Nat}
  (hunsub : ∀ {root root' : Option Node} {t : List UInt8} {s : Frame} {r : Int}, I root →
    nnTrieUnsubscribe root t s = some (root', r) → I root')

include hunsub

omit [DecidableEq H] in
theorem unsubscribeAll_trie {topics : List CStr} {root root' : Option Node} (h : I root)
    (hu : unsubscribeAll sockid topics root = some root') : I root' := by
  induction topics generalizing root with
  | nil =>
    cases hu
    exact h
  | cons topic topics ih =>
    obtain ⟨⟨root₁, r⟩, h₁, hu⟩ := Option.bind_eq_some_iff.mp hu
    exact ih (hunsub h h₁) hu

theorem removeClient_trie {ln : LocalClient} (h : I b.topicsTrie)
    (hr : removeClient env b sockid ln = some b') : I b'.topicsTrie := by
  obtain ⟨⟨b₁, n⟩, hb, rfl⟩ := Option.map_eq_some_iff.mp hr
  suffices htrie : I b₁.topicsTrie from htrie
  unfold removeSubscriptions at hb
  split at hb
  · cases hb
  · cases hb
    exact h
  · obtain ⟨root, hroot, hb⟩ := Option.bind_eq_some_iff.mp hb
    cases hb
    exact unsubscribeAll_trie hunsub h hroot

theorem removeSubscription_trie {key : CStr} (h : I b.topicsTrie)
    (hr : removeSubscription env b sockid key = some (b', n)) : I b'.topicsTrie := by
  unfold removeSubscription at hr
  split at hr
  · cases hr
  · cases hr
    exact h
  · obtain ⟨root, hroot, hr⟩ := Option.bind_eq_some_iff.mp hr
    cases hr
    exact unsubscribeAll_trie hunsub h hroot

/-- **What unsubscribing keeps of the trie, every request keeps** but a subscription, and that too
if it keeps it. -/
theorem Request.effect_trie {r : Request} (h : I b.topicsTrie)
    (hsub : ∀ ln s key, r = .sub ln s key → ∀ root k,
      nnTrieSubscribe b.topicsTrie key.bytes s = some (root, k) → I root)
    (heff : r.effect env b = some b') : I b'.topicsTrie := by
  cases r with
  | none =>
    cases heff
    exact h
  | register sockid hash ten clientName =>
    obtain ⟨o, ho, rfl⟩ := Option.map_eq_some_iff.mp heff
    cases o with
    | none => exact h
    | some b₁ =>
      obtain ⟨-, -, -, -, rfl⟩ := insertLocalClient_eq ho
      exact h
  | sub ln sockid key =>
    obtain ⟨⟨b₁, n⟩, hb, ha⟩ := Option.bind_eq_some_iff.mp heff
    obtain ⟨⟨root, k⟩, hroot, rfl⟩ := Option.map_eq_some_iff.mp ha
    obtain ⟨ht, rfl⟩ := insertSubscription_frame hb
    exact hsub ln sockid key rfl root k hroot
  | unsub ln sockid key =>
    obtain ⟨⟨b₁, n⟩, hb, rfl⟩ := Option.map_eq_some_iff.mp heff
    exact removeSubscription_trie hunsub h hb
  | leave ln sockid => exact removeClient_trie hunsub h heff
  | expel ln => exact removeClient_trie hunsub h heff
  | expire =>
    obtain ⟨sends, hcheck⟩ := Outcome.broker_eq_some.mp heff
    refine checkClients_induction (P := fun b => I b.topicsTrie) (fun _ _ hb => hb) ?_ h hcheck
    intro b₁ np b₂ sends hb hu
    obtain ⟨-, rfl, -⟩ | ⟨c, -, hr, -⟩ := sCbUnregCli_eq_done hu
    · exact hb
    · exact removeClient_trie hunsub hb hr
  | addBroker sockid cookie =>
    obtain ⟨o, ho, rfl⟩ := Option.map_eq_some_iff.mp heff
    split <;> exact h
  | addDist sockid name dist =>
    cases heff
    exact h
  | delDist sockid name =>
    cases heff
    split <;> exact h
  | dropDist name =>
    cases heff
    split <;> exact h
  | expireBrokers =>
    obtain ⟨sends, hcheck⟩ := Outcome.broker_eq_some.mp heff
    exact checkBrokers_induction (P := fun b => I b.topicsTrie) (fun _ _ h => h) (fun _ _ h => h) h
      hcheck

end

/-- **The reasons for the socket ids in a trie** are enough after a step, with one for the key it
subscribes. -/
theorem step_backed {P : List UInt8 → Frame → Prop} {b b' : DdBroker H} {e : Event}
    {sends : List Send} (htight : TightRoot b.topicsTrie) (h : BackedRoot P b.topicsTrie)
    (hsub : ∀ ln s key, request env b e = .sub ln s key → P key.bytes s)
    (hs : step env b e = .done b' sends) : BackedRoot P b'.topicsTrie := by
  obtain ⟨b₁, heff, hsame⟩ := step_effect hs
  rw [hsame.topicsTrie]
  refine (Request.effect_trie (I := fun root => TightRoot root ∧ BackedRoot P root) ?_
    ⟨htight, h⟩ ?_ heff).2
  · rintro root root' t s r ⟨htight, h⟩ hu
    exact ⟨(nnNodeUnsubscribe_tight htight hu).1, nnNodeUnsubscribe_backed htight h hu⟩
  · intro ln s key hreq root k hroot
    exact ⟨nnTrieSubscribe_tight htight key.nul_free hroot,
      nnTrieSubscribe_backed htight h (hsub ln s key hreq) hroot⟩

/-! ## The publication an event brings -/

/-- A publication at a broker: the topic that is looked up, and what its `PUB` messages show of the
source and the topic. -/
structure Publication where
  pubtopic : CStr
  name : CStr
  topic : CStr
  payload : List Frame

/-- A publication another broker sent: local clients get the topic without tenant and scope. -/
def relayedPublication : List Frame → Option Publication
  | topicFrame :: nameFrame :: rest =>
    ((CStr.ofBytes topicFrame).after dot).map fun topic =>
      ⟨CStr.ofBytes topicFrame, CStr.ofBytes nameFrame, topic.before slash, (zmsgPop rest).2⟩
  | _ => none

/-- A publication of a client. -/
def ownPublication (self : DdBroker H) (ln : LocalClient) (topicFrame : Frame) (rest : List Frame) :
    Publication :=
  let composed := composeTopic self ln (CStr.ofBytes topicFrame)
  ⟨composed.2.1, composed.2.2, composed.1, (zmsgPop rest).2⟩

variable (env) in
/-- The publication of an event. -/
def publication (self : DdBroker H) : Event → Option Publication
  | .router msg =>
    match routerCmd msg with
    | some (source, .pub, cookie :: topicFrame :: rest) =>
      (acceptedFor env self source cookie).map fun ln => ownPublication self ln topicFrame rest
    | _ => none
  | .subN msg | .subS msg => relayedPublication msg
  | _ => none

/-- The `PUB` a subscriber gets. -/
def Publication.msg (p : Publication) : List Frame :=
  ddMsg .pub (p.name.bytes :: p.topic.bytes :: p.payload)

omit [DecidableEq H] in
/-- The `PUB` messages of `pub_remotely`. -/
theorem mem_pubRemotely {self : DdBroker H} {pubtopic name : CStr} {payload : List Frame} {x : Send}
    (hx : x ∈ (pubRemotely self pubtopic name payload).sends) :
    ∃ socks topic, nnTrieTree self.topicsTrie pubtopic.bytes = some socks ∧
      pubtopic.after dot = some topic ∧ x ∈ pubLocally socks name (topic.before slash) payload := by
  unfold pubRemotely at hx
  split at hx
  · cases hx
  · cases hx
  · next socks hsocks =>
    split at hx
    · cases hx
    · next topic htopic =>
      refine ⟨some socks, topic, hsocks, htopic, ?_⟩
      simp only at hx
      split at hx <;> exact hx

omit [DecidableEq H] in
/-- A `PUB` for a publication of another broker. -/
theorem pub_of_relayed {self : DdBroker H} {msg : List Frame} {x : Send} (hpub : x.cmd = some .pub)
    (hx : x ∈ (sOnSubNMsg self msg).sends ∨ x ∈ (sOnSubSMsg self msg).sends) :
    ∃ p socks, relayedPublication msg = some p ∧
      nnTrieTree self.topicsTrie p.pubtopic.bytes = some socks ∧
      x ∈ pubLocally socks p.name p.topic p.payload := by
  have hrelay : ∀ {t n : CStr} {payload : List Frame}, ¬ x.Relays t n payload := fun h => by
    rw [h.cmd] at hpub
    cases hpub
  have hlocal : ∀ {topicFrame nameFrame : Frame} {rest : List Frame},
      x ∈ (pubRemotely self (CStr.ofBytes topicFrame) (CStr.ofBytes nameFrame)
        (zmsgPop rest).2).sends → ∃ p socks,
      relayedPublication (topicFrame :: nameFrame :: rest) = some p ∧
      nnTrieTree self.topicsTrie p.pubtopic.bytes = some socks ∧
      x ∈ pubLocally socks p.name p.topic p.payload := by
    intro topicFrame nameFrame rest hx
    obtain ⟨socks, topic, hsocks, htopic, hx⟩ := mem_pubRemotely hx
    refine ⟨_, socks, by rw [relayedPublication, htopic, Option.map_some], hsocks, hx⟩
  obtain hx | hx := hx
  · unfold sOnSubNMsg at hx
    simp only at hx
    split at hx
    · cases hx
    · split at hx
      · next hpubtopic hname =>
        obtain ⟨topicFrame, nameFrame, rest, rfl, rfl, rfl⟩ := zmsgPopstr_eq_some hpubtopic hname
        obtain hx | hx := mem_andThen (P := fun y => y.Relays _ _ _) hx fun b y hy =>
          relays_south hy
        · exact absurd hx hrelay
        · exact hlocal hx
      · cases hx
  · unfold sOnSubSMsg at hx
    simp only at hx
    split at hx
    · next hpubtopic hname =>
      obtain ⟨topicFrame, nameFrame, rest, rfl, rfl, rfl⟩ := zmsgPopstr_eq_some hpubtopic hname
      obtain hx | hx := mem_andThen (P := fun y => y.Relays _ _ _) hx fun b y hy => by
        split at hy
        · cases hy
        · split at hy
          · exact relays_north hy
          · exact (List.mem_append.mp hy).elim relays_north relays_south
      · exact absurd hx hrelay
      · exact hlocal hx
    · cases hx

/-- **Where a `PUB` comes from** — the lookup of the topic of the publication. -/
theorem pub_of_step {self : DdBroker H} {e : Event} {dest : Frame} {msg : List Frame}
    (hx : Send.rsock dest msg ∈ (step env self e).sends)
    (hpub : (Send.rsock dest msg).cmd = some .pub) :
    ∃ p socks, publication env self e = some p ∧
      nnTrieTree self.topicsTrie p.pubtopic.bytes = some socks ∧ dest ∈ socks.getD [] ∧
      msg = p.msg := by
  suffices h : ∃ p socks, publication env self e = some p ∧
      nnTrieTree self.topicsTrie p.pubtopic.bytes = some socks ∧
      Send.rsock dest msg ∈ pubLocally socks p.name p.topic p.payload by
    obtain ⟨p, socks, hp, hsocks, hx⟩ := h
    obtain ⟨s, hs, heq⟩ := List.mem_map.mp hx
    cases heq
    exact ⟨p, socks, hp, hsocks, hs, rfl⟩
  have hans := says_step self e _ hx _ hpub
  cases e with
  | router m =>
    obtain ⟨source, cmd, rest, hm, heq⟩ | ⟨hm, -⟩ := sOnRouterMsg_eq env self m
    · rw [step, heq] at hx
      obtain rfl : cmd = .pub := by
        rw [Event.answers, hm] at hans
        cases cmd <;> simp [Cmd.answers] at hans
        rfl
      cases rest with
      | nil => cases hx
      | cons cookie rest =>
        obtain ⟨ln, topicFrame, rest, topic, pubtopic, name, rfl, -, hln, hcomp, hx⟩ :=
          sCbPub_sends hx
        obtain hrelay | ⟨socks, hsocks, hx⟩ := hx
        · rw [hrelay.cmd] at hpub
          cases hpub
        · refine ⟨ownPublication self ln topicFrame rest, socks, ?_, ?_, ?_⟩
          · simp only [publication, hm, acceptedFor_eq_some.mpr hln, Option.map_some]
          · rw [ownPublication, hcomp]
            exact hsocks
          · rw [ownPublication, hcomp]
            exact hx
    · rw [Event.answers, hm] at hans
      simp at hans
  | subN m => exact pub_of_relayed hpub (.inl hx)
  | subS m => exact pub_of_relayed hpub (.inr hx)
  | dealer m =>
    rw [Event.answers] at hans
    cases hm : dealerCmd m with
    | none =>
      rw [hm] at hans
      simp at hans
    | some p =>
      rw [hm] at hans
      obtain ⟨cmd, rest⟩ := p
      cases cmd <;> simp [Cmd.dealerAnswers] at hans
  | pubN | pubS | register | heartbeat | checkCliTimeout | checkBrTimeout =>
    simp [Event.answers] at hans

/-! ## Every run -/

/-- **A `SUB` from this socket id was taken for this key** at some step of a run. -/
def AskedFor (env : Env H) (cfg : Config) (es : List Event) (key : List UInt8) (s : Frame) : Prop :=
  ∃ before e after, es = after ++ e :: before ∧ ∃ b ln k, Run env cfg before b ∧
    request env b e = .sub ln s k ∧ k.bytes = key

theorem AskedFor.cons {cfg : Config} {es : List Event} {key : List UInt8} {s : Frame}
    (h : AskedFor env cfg es key s) (e : Event) : AskedFor env cfg (e :: es) key s := by
  obtain ⟨before, e', after, rfl, hrest⟩ := h
  exact ⟨before, e', e :: after, rfl, hrest⟩

/-- The trie of a run has the taken `SUB`s for reasons. -/
theorem Run.backed {cfg : Config} {es : List Event} {self : DdBroker H}
    (hrun : Run env cfg es self) : BackedRoot (AskedFor env cfg es) self.topicsTrie := by
  induction hrun with
  | init => exact backedRoot_none
  | @step es self self' e sends hrun hen hs ih =>
    refine step_backed (Reachable.tight ⟨_, hrun⟩) (ih.mono fun _ _ h => h.cons e) ?_ hs
    intro ln s key hreq
    exact ⟨es, e, [], rfl, self, ln, key, hrun, hreq, rfl⟩

/-- **A publication reaches who asked for it** — in every run, whatever was lost of the stores and
whatever comes next: a `PUB` shows the source and the topic of the publication, and goes to a socket
id from which a `SUB` was taken for a prefix of the topic that is looked up. -/
theorem published_to_subscriber {cfg : Config} {es : List Event} {self : DdBroker H}
    (hrun : Run env cfg es self) {e : Event} {dest : Frame} {msg : List Frame}
    (hsend : Send.rsock dest msg ∈ (step env self e).sends)
    (hpub : (Send.rsock dest msg).cmd = some .pub) :
    ∃ p, publication env self e = some p ∧ msg = p.msg ∧
      ∃ key, key <+: p.pubtopic.bytes ∧ AskedFor env cfg es key dest := by
  obtain ⟨p, socks, hp, hsocks, hdest, rfl⟩ := pub_of_step hsend hpub
  exact ⟨p, hp, rfl, nnTrieTree_backed hrun.backed hsocks hdest⟩

/-- The publication that outlives its subscriber's registration was asked for. -/
theorem published_to_subscriber_lostTopic : ∃ self : DdBroker (List UInt8),
    runEvents plainEnv (ddBrokerNew _ demoConfig) lostTopic = some self ∧
      ∃ p, publication plainEnv self pubY = some p ∧
        ∃ key, key <+: p.pubtopic.bytes ∧ AskedFor plainEnv demoConfig lostTopic key
          [1, 2, 3, 4, 5] := by
  obtain ⟨self, hself, hpair⟩ := Option.map_eq_some_iff.mp lostTopic_run
  obtain ⟨-, hsend⟩ := Prod.mk.inj hpair
  obtain ⟨p, hp, -, hkey⟩ := published_to_subscriber (.of_runEvents hself)
    (of_decide_eq_true hsend) (by decide)
  exact ⟨self, hself, p, hp, hkey⟩

end DoubleDecker
