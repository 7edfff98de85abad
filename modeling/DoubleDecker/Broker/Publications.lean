import DoubleDecker.Broker.PubStrings
import DoubleDecker.Trie.Lookup

/-!
# Broker/Publications — a publication at one broker

`s_cb_pub`, `s_on_subN_msg` and `s_on_subS_msg` look the composed topic up and pass the publication
on.  The trie of a broker is tight (`Reachable.tight`), so the lookup returns; a composed topic that
was not cut off has the slash the two others look for (`exists_cuts`).
-/

namespace DoubleDecker

open Trie

variable {H : Type} [DecidableEq H] {env : Env H}

/-! ## The trie of a broker -/

section

variable {b b' : DdBroker H} {sockid : Frame} {n : Nat}

theorem unsubscribeAll_tight {topics : List CStr} {root root' : Option Node} (h : TightRoot root)
    (hu : unsubscribeAll sockid topics root = some root') : TightRoot root' := by
  rw [unsubscribeAll_eq_exec] at hu
  refine exec_tight h (fun t s hm => ?_) hu
  obtain ⟨_, -, h⟩ := List.mem_map.mp hm
  cases h

theorem removeSubscriptions_tight (h : TightRoot b.topicsTrie)
    (hr : removeSubscriptions env b sockid = some (b', n)) : TightRoot b'.topicsTrie := by
  unfold removeSubscriptions at hr
  split at hr
  · cases hr
  · cases hr
    exact h
  · obtain ⟨root, hroot, hr⟩ := Option.bind_eq_some_iff.mp hr
    cases hr
    exact unsubscribeAll_tight h hroot

theorem removeSubscription_tight {key : CStr} (h : TightRoot b.topicsTrie)
    (hr : removeSubscription env b sockid key = some (b', n)) : TightRoot b'.topicsTrie := by
  unfold removeSubscription at hr
  split at hr
  · cases hr
  · cases hr
    exact h
  · obtain ⟨root, hroot, hr⟩ := Option.bind_eq_some_iff.mp hr
    cases hr
    exact unsubscribeAll_tight h hroot

theorem removeClient_tight {ln : LocalClient} (h : TightRoot b.topicsTrie)
    (hr : removeClient env b sockid ln = some b') : TightRoot b'.topicsTrie := by
  obtain ⟨⟨b₁, n⟩, hb, rfl⟩ := Option.map_eq_some_iff.mp hr
  have htrie : TightRoot b₁.topicsTrie := removeSubscriptions_tight h hb
  exact htrie

theorem addSubscription_tight {key : CStr} (h : TightRoot b.topicsTrie)
    (ha : addSubscription env b sockid key = some b') : TightRoot b'.topicsTrie := by
  obtain ⟨⟨b₁, n⟩, hb, ha⟩ := Option.bind_eq_some_iff.mp ha
  obtain ⟨⟨root, r⟩, hroot, rfl⟩ := Option.map_eq_some_iff.mp ha
  obtain ⟨ht, rfl⟩ := insertSubscription_frame hb
  exact nnTrieSubscribe_tight h key.nul_free hroot

/-- Every request keeps the trie tight. -/
theorem Request.effect_tight {r : Request} (h : TightRoot b.topicsTrie)
    (heff : r.effect env b = some b') : TightRoot b'.topicsTrie := by
  cases r with
  | none =>
    cases heff
    exact h
  | register sockid hash ten clientName =>
    obtain ⟨o, ho, rfl⟩ := Option.map_eq_some_iff.mp heff
    cases o with
    | none => exact h
    | some b₁ =>
      obtain ⟨-, -, -, -, rfl⟩ := insertLocalClient_eq ho
      exact h
  | sub ln sockid key => exact addSubscription_tight h heff
  | unsub ln sockid key =>
    obtain ⟨⟨b₁, n⟩, hb, rfl⟩ := Option.map_eq_some_iff.mp heff
    exact removeSubscription_tight h hb
  | leave ln sockid => exact removeClient_tight h heff
  | expel ln => exact removeClient_tight h heff
  | expire =>
    obtain ⟨sends, hcheck⟩ := Outcome.broker_eq_some.mp heff
    refine checkClients_induction (P := fun b => TightRoot b.topicsTrie)
      (fun _ _ hb => hb) ?_ h hcheck
    intro b₁ np b₂ sends hb hu
    obtain ⟨-, rfl, -⟩ | ⟨c, -, hr, -⟩ := sCbUnregCli_eq_done hu
    · exact hb
    · exact removeClient_tight hb hr
  | addBroker sockid cookie =>
    obtain ⟨o, ho, rfl⟩ := Option.map_eq_some_iff.mp heff
    split <;> exact h
  | addDist sockid name dist =>
    cases heff
    exact h
  | delDist sockid name =>
    cases heff
    split <;> exact h
  | dropDist name =>
    cases heff
    split <;> exact h
  | expireBrokers =>
    obtain ⟨sends, hcheck⟩ := Outcome.broker_eq_some.mp heff
    exact checkBrokers_induction (P := fun b => TightRoot b.topicsTrie) (fun _ _ h => h)
      (fun _ _ h => h) h hcheck

/-- Every step keeps the trie tight. -/
theorem step_tight {e : Event} {sends : List Send} (h : TightRoot b.topicsTrie)
    (hs : step env b e = .done b' sends) : TightRoot b'.topicsTrie := by
  obtain ⟨b₁, heff, hsame⟩ := step_effect hs
  exact hsame.topicsTrie ▸ Request.effect_tight h heff

/-- **The trie of every broker is tight.** -/
theorem Reachable.tight {cfg : Config} (h : Reachable env cfg b) : TightRoot b.topicsTrie := by
  obtain ⟨es, hrun⟩ := h
  induction hrun with
  | init => exact tightRoot_none
  | step _ _ hs ih => exact step_tight ih hs

end

/-! ## The composed topic -/

/-- **The composed topic fits its buffer**: nothing of the topic or the scope is cut off. -/
def Untruncated {H : Type} (b : DdBroker H) (ln : LocalClient) (topic : CStr) : Prop :=
  (if topic.startsWith publicDot then topic ++ b.brokerScope
    else ln.tenant ++ dotStr ++ (topic ++ b.brokerScope)).length ≤ 255

instance (b : DdBroker H) (ln : LocalClient) (topic : CStr) : Decidable (Untruncated b ln topic) :=
  inferInstanceAs (Decidable (_ ≤ _))

/-- A string with a slash behind a dot has one behind its first dot. -/
theorem exists_cuts {s : CStr} {u v : List UInt8} (h : s.bytes = u ++ dot :: v) (hv : slash ∈ v) :
    ∃ topic, Cuts s topic := by
  have hdot : dot ∈ s.bytes := h ▸ List.mem_append_right _ List.mem_cons_self
  obtain ⟨rest, hrest⟩ : ∃ rest, s.after dot = some rest := ⟨_, if_pos hdot⟩
  have hsplit := CStr.exists_of_after hrest
  have hfirst : dot ∉ (s.before dot).bytes := fun hmem => by simpa using List.mem_takeWhile_imp hmem
  -- what follows a later dot follows the first one
  have hmem : slash ∈ rest.bytes := by
    rw [h] at hsplit
    obtain ⟨w, hu, hw⟩ | ⟨w, hu, hw⟩ := List.append_eq_append_iff.mp hsplit
    · cases w with
      | nil =>
        obtain ⟨-, rfl⟩ := List.cons.inj (hw.trans (List.nil_append _))
        exact hv
      | cons c w =>
        obtain ⟨rfl, -⟩ := List.cons.inj hw
        exact absurd (hu ▸ List.mem_append_right _ List.mem_cons_self) hfirst
    · cases w with
      | nil =>
        obtain ⟨-, rfl⟩ := List.cons.inj (hw.trans (List.nil_append _))
        exact hv
      | cons c w =>
        obtain ⟨-, hw⟩ := List.cons.inj hw
        rw [hw]
        exact List.mem_append_right _ (List.mem_cons_of_mem _ hv)
  exact ⟨_, cuts_of_after hrest hmem⟩

omit [DecidableEq H] in
/-- **A composed topic that fits** has its slash behind its first dot. -/
theorem exists_cuts_composeTopic {b : DdBroker H} {ln : LocalClient} {topic : CStr} {r : List UInt8}
    (hscope : b.brokerScope.bytes = slash :: r) (hend : topic.bytes.getLast? ≠ some 36)
    (hfits : Untruncated b ln topic) : ∃ t, Cuts (composeTopic b ln topic).2.1 t := by
  rw [composeTopic_pubtopic]
  unfold Untruncated at hfits
  split at hfits
  · next hpub =>
    rw [if_pos hpub, prefixTopic, if_neg hend, CStr.truncate_of_le hfits]
    obtain ⟨t, ht⟩ := CStr.startsWith_iff.mp hpub
    refine exists_cuts (u := publicName.bytes) (v := t ++ slash :: r) ?_ (by simp)
    rw [CStr.bytes_append, hscope, ← ht, List.append_assoc]
    rfl
  · next hpub =>
    have hle : (topic ++ b.brokerScope).length ≤ 255 := by
      rw [CStr.length_append] at hfits
      omega
    rw [if_neg hpub, prefixTopic, if_neg hend, CStr.truncate_of_le hle, joined,
      CStr.truncate_of_le hfits]
    refine exists_cuts (u := ln.tenant.bytes) (v := topic.bytes ++ slash :: r) ?_ (by simp)
    rw [CStr.bytes_append, CStr.bytes_append, CStr.bytes_append, hscope, List.append_assoc]
    rfl

/-! ## The three handlers -/

variable (env) in
/-- **The topic an event looks up** in the trie: the composed topic of a `PUB` that is accepted, or
the topic of a publication of another broker, unless it is an echo. -/
def lookedUp (b : DdBroker H) : Event → Option CStr
  | .router msg =>
    match routerCmd msg with
    | some (source, .pub, cookie :: topic :: _) =>
      if CStr.ofBytes topic = ∅ then none
      else (acceptedFor env b source cookie).map fun ln =>
        (composeTopic b ln (CStr.ofBytes topic)).2.1
    | _ => none
  | .subN (topic :: _ :: rest) =>
    if zframeEq (zmsgPop rest).1 b.brokerId then none else some (CStr.ofBytes topic)
  | .subS (topic :: _ :: _) => some (CStr.ofBytes topic)
  | _ => none

/-- The publication passed to the higher broker, with the broker's own id. -/
def passNorth {H : Type} (b : DdBroker H) (pubtopic name : CStr) (msg : List Frame) : List Send :=
  if b.connectedN then [.pubN (pubtopic.bytes :: name.bytes :: b.brokerId.getD [] :: msg)] else []

section

variable {b : DdBroker H} {pubtopic name topic : CStr} {pathv : Frame} {payload : List Frame}
  {socks : Option (List Frame)}

theorem zframeEq_eq_false {f : Frame} {id : Option Frame} (h : id ≠ some f) :
    zframeEq (some f) id = false := by
  cases id with
  | none => rfl
  | some id => exact decide_eq_false fun heq => h (congrArg some heq.symm)

/-- **An echo** goes no further. -/
theorem step_subN_echo (h : b.brokerId = some pathv) :
    step env b (.subN (pubtopic.bytes :: name.bytes :: pathv :: payload)) = .done b [] := by
  simp [step, sOnSubNMsg, zmsgPopstr, zmsgPop, zframeEq, h]

/-- **A publication from above** is handed on and passed to the lower brokers. -/
theorem step_subN (h : b.brokerId ≠ some pathv)
    (hsocks : nnTrieTree b.topicsTrie pubtopic.bytes = some socks) (hcuts : Cuts pubtopic topic) :
    step env b (.subN (pubtopic.bytes :: name.bytes :: pathv :: payload)) =
      .done b (pubLocally socks name topic payload ++
        [.pubS (pubtopic.bytes :: name.bytes :: [] :: payload)]) := by
  simp only [step, sOnSubNMsg, zmsgPopstr, zmsgPop, zframeEq_eq_false h, CStr.ofBytes_bytes,
    Bool.false_eq_true, if_false, pubRemotely_eq_done hsocks hcuts]
  rfl

/-- **A publication from below** is handed on and passed both ways, down with the id of the broker
it came from. -/
theorem step_subS (hid : b.connectedN → b.brokerId.isSome)
    (hsocks : nnTrieTree b.topicsTrie pubtopic.bytes = some socks) (hcuts : Cuts pubtopic topic) :
    step env b (.subS (pubtopic.bytes :: name.bytes :: pathv :: payload)) =
      .done b (pubLocally socks name topic payload ++ (passNorth b pubtopic name payload ++
        [.pubS (pubtopic.bytes :: name.bytes :: pathv :: payload)])) := by
  simp only [step, sOnSubSMsg, zmsgPopstr, zmsgPop, CStr.ofBytes_bytes,
    pubRemotely_eq_done hsocks hcuts, Outcome.andThen]
  cases hconn : b.connectedN with
  | false => simp [passNorth, hconn]
  | true =>
    obtain ⟨id, hid⟩ := Option.isSome_iff_exists.mp (hid hconn)
    simp [passNorth, hconn, hid]

/-- **A `PUB` that is accepted** is passed both ways and handed on. -/
theorem step_pubAccepted {msg : List Frame} {source cookie topicFrame : Frame} {rest : List Frame}
    {ln : LocalClient} (hmsg : routerCmd msg = some (source, .pub, cookie :: topicFrame :: rest))
    (hacc : acceptedFor env b source cookie = some ln) (hne : CStr.ofBytes topicFrame ≠ ∅)
    (hid : b.connectedN → b.brokerId.isSome)
    (hcompose : composeTopic b ln (CStr.ofBytes topicFrame) = (topic, pubtopic, name))
    (hsocks : nnTrieTree b.topicsTrie pubtopic.bytes = some socks) :
    step env b (.router msg) = .done (b.touch ln) (passNorth b pubtopic name (zmsgPop rest).2 ++
      [.pubS (pubtopic.bytes :: name.bytes :: [] :: (zmsgPop rest).2)] ++
      pubLocally socks name topic (zmsgPop rest).2) := by
  have hbytes : (CStr.ofBytes topicFrame).bytes ≠ [] := fun h => hne (CStr.ext h)
  have hcompose' : composeTopic (b.touch ln) ln (CStr.ofBytes topicFrame) =
    (topic, pubtopic, name) :=
    hcompose
  rw [step_router hmsg]
  simp only [onRouterCmd, sCbPub, zmsgPopstr, acceptedFor_eq_some.mp hacc, hbytes, if_false,
    hcompose']
  have hid' : (b.touch ln).brokerId = b.brokerId := rfl
  have hconn' : (b.touch ln).connectedN = b.connectedN := rfl
  have htrie : (b.touch ln).topicsTrie = b.topicsTrie := rfl
  rw [hid', hconn', htrie, hsocks]
  cases hconn : b.connectedN with
  | false => simp [passNorth, hconn]
  | true =>
    obtain ⟨id, hid⟩ := Option.isSome_iff_exists.mp (hid hconn)
    simp [passNorth, hconn, hid]

/-! ## The topic that is looked up -/

theorem lookedUp_pubAccepted {msg : List Frame} {source cookie topicFrame : Frame}
    {rest : List Frame} {ln : LocalClient}
    (hmsg : routerCmd msg = some (source, .pub, cookie :: topicFrame :: rest))
    (hacc : acceptedFor env b source cookie = some ln) (hne : CStr.ofBytes topicFrame ≠ ∅) :
    lookedUp env b (.router msg) = some (composeTopic b ln (CStr.ofBytes topicFrame)).2.1 := by
  simp [lookedUp, hmsg, hne, hacc]

theorem lookedUp_subN_echo (h : b.brokerId = some pathv) :
    lookedUp env b (.subN (pubtopic.bytes :: name.bytes :: pathv :: payload)) = none := by
  simp [lookedUp, zmsgPop, zframeEq, h]

theorem lookedUp_subN (h : b.brokerId ≠ some pathv) :
    lookedUp env b (.subN (pubtopic.bytes :: name.bytes :: pathv :: payload)) = some pubtopic := by
  simp [lookedUp, zmsgPop, zframeEq_eq_false h]

theorem lookedUp_subS :
    lookedUp env b (.subS (pubtopic.bytes :: name.bytes :: pathv :: payload)) = some pubtopic := by
  simp [lookedUp]

end

end DoubleDecker
