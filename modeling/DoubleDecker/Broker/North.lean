import DoubleDecker.Broker.Links
import DoubleDecker.Broker.Propagation
import Mathlib.Data.Multiset.AddSub

/-!
# Broker/North — the sub sockets to the higher broker

Every `REGOK` with endpoints opens a fresh sub socket, and no socket is ever closed.  A sub socket
counts the subscriptions it was told and forgets one at each end.  `north_survives`: in every run
in which the broker connects once, before any subscription, and keeps its sub sockets in step, that
one socket has the subscriptions of the local clients and those from below.
-/

namespace DoubleDecker

open Trie

variable {H : Type} [DecidableEq H] {env : Env H} {b b' : DdBroker H} {e : Event}
  {es : List Event} {sends : List Send}

/-! ## The sockets -/

/-- A sub socket after a frame: a first byte 1 adds a subscription, a 0 takes one away. -/
def xsubTold (keys : Multiset Frame) : Frame → Multiset Frame
  | [] => keys
  | first :: key => if first = 1 then key ::ₘ keys else if first = 0 then keys.erase key else keys

/-- The socket to the north after a message to any socket. -/
def northTold (keys : Multiset Frame) : Send → Multiset Frame
  | .subN (frame :: _) => xsubTold keys frame
  | _ => keys

/-- The messages of a step go to the socket opened last. -/
def tellNorth (sends : List Send) : List (Multiset Frame) → List (Multiset Frame)
  | [] => []
  | keys :: old => sends.foldl northTold keys :: old

variable (env) in
/-- **The sub sockets to the north that are read**, the last one first, each with what it is
subscribed to. -/
def northSubs (b : DdBroker H) : List Event → List (Multiset Frame)
  | [] => []
  | e :: es =>
    match runEvents env b es with
    | none => northSubs b es
    | some b' => tellNorth (step env b' e).sends
        (if e.endpoints then 0 :: northSubs b es else northSubs b es)

/-- The pub sockets to the north that are read: one is opened with each sub socket. -/
def northPubs (es : List Event) : Nat := es.countP Event.endpoints

/-- **The subscriptions from lower brokers**, as the socket to the south handed them on. -/
def below : List Event → Multiset Frame
  | [] => 0
  | .pubS (frame :: _) :: es => xsubTold (below es) frame
  | _ :: es => below es

/-- What a pub socket hands on: an end only of a subscription that is there. -/
def fromXpub : List Event → Bool
  | [] => true
  | .pubS ((0 :: key) :: _) :: es => decide (key ∈ below es) && fromXpub es
  | _ :: es => fromXpub es

/-- The topics of the local clients, each as often as it is subscribed. -/
def localKeys {H : Type} (b : DdBroker H) : Multiset Frame :=
  (liveSubs b).val.map fun p => p.2.bytes

/-- How often a publication comes from the north: once on each socket with a subscription to it. -/
def copies (subs : List (Multiset Frame)) (pubtopic : Frame) : Nat :=
  subs.countP fun keys => decide (0 < keys.countP fun key => key <+: pubtopic)

/-! ## The condition -/

variable (env) in
/-- **A step keeps the socket to the north in step** — the broker connects once, when nobody has
subscribed yet, and the local steps thereafter keep the sub sockets in step. -/
def northSafe (es : List Event) (b : DdBroker H) (e : Event) : Bool :=
  if b.connectedN then !e.endpoints && (!e.ofClients || propagationSafe env b e)
  else !e.endpoints ||
    (b.topicsTrie.isNone && decide (liveSubs b = ∅) && decide (below es = 0))

variable (env) in
/-- Every step of a list of events meets a condition on what came before. -/
def meetsAfter (cond : List Event → DdBroker H → Event → Bool) (b : DdBroker H) :
    List Event → Bool
  | [] => true
  | e :: es => meetsAfter cond b es && (runEvents env b es).all fun b' => cond es b' e

/-! ## What one step does to the socket -/

omit [DecidableEq H] in
/-- A quiet step tells the socket nothing. -/
theorem northTold_quiet (hquiet : ∀ x ∈ sends, x.toSub = false) (keys : Multiset Frame) :
    sends.foldl northTold keys = keys := by
  induction sends generalizing keys with
  | nil => rfl
  | cons x sends ih =>
    have hx := hquiet x List.mem_cons_self
    have htold : northTold keys x = keys := by
      cases x with
      | subN msg => cases hx
      | rsock | dsock | pubN | pubS | subS => rfl
    rw [List.foldl_cons, htold]
    exact ih (fun y hy => hquiet y (List.mem_cons_of_mem _ hy)) keys

omit [DecidableEq H] in
/-- A pair more is a key more. -/
theorem localKeys_insert {s : Frame} {t : CStr} (hnew : (s, t) ∉ liveSubs b)
    (hins : liveSubs b' = insert (s, t) (liveSubs b)) :
    localKeys b' = t.bytes ::ₘ localKeys b := by
  rw [localKeys, hins, Finset.insert_val_of_notMem hnew, Multiset.map_cons]
  rfl

omit [DecidableEq H] in
/-- **The socket follows the local clients.** -/
theorem Tells.north (h : Tells b b' sends) (hconn : b.connectedN) (below : Multiset Frame) :
    sends.foldl northTold (localKeys b + below) = localKeys b' + below := by
  cases h with
  | quiet hquiet hsame => rw [northTold_quiet hquiet, localKeys, localKeys, hsame]
  | @came s t reply hnew hins =>
    rw [localKeys_insert hnew hins]
    simp only [List.foldl_cons, tellSubs, hconn, if_true, List.cons_append, List.nil_append,
      List.foldl_nil, northTold, xsubTold]
    rw [Multiset.cons_add]
  | @went s t hgone hins =>
    rw [localKeys_insert hgone hins]
    simp only [tellSubs, hconn, if_true, List.cons_append, List.nil_append, List.foldl_cons,
      List.foldl_nil, northTold, xsubTold]
    rw [if_neg (by decide), Multiset.cons_add, Multiset.erase_cons_head]

/-- What comes from below goes on to the north. -/
theorem xsubTold_add {keys below : Multiset Frame} {frame : Frame}
    (h : ∀ key, frame = 0 :: key → key ∈ below) :
    xsubTold (keys + below) frame = keys + xsubTold below frame := by
  cases frame with
  | nil => rfl
  | cons first key =>
    unfold xsubTold
    simp only
    split
    · rw [Multiset.add_cons]
    · split
      · next hzero => rw [Multiset.erase_add_right_pos _ (h key (by rw [hzero]))]
      · rfl

/-! ## Runs -/

/-- **The sockets of a broker**: none before it connects; one, in step, thereafter. -/
structure NorthOk (env : Env H) (b₀ : DdBroker H) (es : List Event) (b : DdBroker H) : Prop where
  before : b.connectedN = false → northSubs env b₀ es = []
  after : b.connectedN = true → StoresOk b ∧ northSubs env b₀ es = [localKeys b + below es]

omit [DecidableEq H] in
/-- A broker without subscriptions. -/
theorem storesOk_of_empty (hok : TablesOk env b) (htrie : b.topicsTrie = none)
    (hlive : liveSubs b = ∅) : StoresOk b := by
  have htop : ∀ s, topicsOf b s = [] := fun s => by
    rw [List.eq_nil_iff_forall_not_mem]
    intro t ht
    rw [← hok.mem_liveSubs, hlive] at ht
    exact absurd ht (Finset.notMem_empty _)
  refine ⟨⟨by rw [htrie]; exact shaped_none, fun p s => ?_⟩, fun s => ?_⟩
  · simp [pairsOf, htop, htrie]
  · rw [htop]
    exact List.nodup_nil

theorem below_of_ofClients (h : e.ofClients) : below (e :: es) = below es := by
  cases e with
  | pubS msg => cases h
  | _ => rfl

/-- The subscriptions of other brokers go on as they are, and change nothing here. -/
theorem forwarded (he : e.ofClients = false) (hconn : b.connectedN) (hx : fromXpub (e :: es))
    (hs : DoubleDecker.step env b e = .done b' sends) (keys : Multiset Frame) : b' = b ∧
    sends.foldl northTold (keys + below es) = keys + below (e :: es) := by
  cases e with
  | pubN msg =>
    cases msg with
    | nil => cases hs
    | cons frame rest =>
      simp only [DoubleDecker.step, sOnPubNMsg, zmsgPop] at hs
      split at hs
      · cases hs
      · cases hs
        exact ⟨rfl, rfl⟩
  | pubS msg =>
    cases msg with
    | nil => cases hs
    | cons frame rest =>
      simp only [DoubleDecker.step, sOnPubSMsg, zmsgPop] at hs
      split at hs
      · cases hs
      · cases hs
        refine ⟨rfl, ?_⟩
        rw [below]
        refine xsubTold_add fun key hframe => ?_
        subst hframe
        rw [fromXpub, Bool.and_eq_true] at hx
        exact of_decide_eq_true hx.1
  | _ => cases he

/-- **One event** keeps the sockets as they have to be. -/
theorem NorthOk.step (hinj : Function.Injective env.xxh32) {b₀ : DdBroker H}
    (hok : TablesOk env b) (h : NorthOk env b₀ es b) (hrun : runEvents env b₀ es = some b)
    (hx : fromXpub (e :: es)) (hsafe : northSafe env es b e)
    (hs : DoubleDecker.step env b e = .done b' sends) : NorthOk env b₀ (e :: es) b' := by
  have hok' := hok.step hinj hs
  have hconn := step_connectedN hs
  have hsubs : northSubs env b₀ (e :: es) = tellNorth sends
      (if e.endpoints then 0 :: northSubs env b₀ es else northSubs env b₀ es) := by
    rw [northSubs, hrun]
    simp only [hs, Outcome.sends]
  rw [northSafe] at hsafe
  cases hc : b.connectedN with
  | false =>
    rw [hc, Bool.false_or] at hconn
    rw [hc, if_neg Bool.false_ne_true] at hsafe
    cases hends : e.endpoints with
    | false =>
      rw [hends] at hconn
      refine ⟨fun _ => ?_, fun hc' => (by rw [hconn] at hc'; cases hc')⟩
      rw [hsubs, hends, if_neg Bool.false_ne_true, h.before hc]
      rfl
    | true =>
      simp only [hends, Bool.not_true, Bool.false_or, Bool.and_eq_true, decide_eq_true_eq,
        Option.isNone_iff_eq_none] at hsafe
      obtain ⟨⟨htrie, hlive⟩, hbelow⟩ := hsafe
      rw [hends] at hconn
      refine ⟨fun hc' => (by rw [hconn] at hc'; cases hc'), fun _ => ?_⟩
      obtain ⟨msg, rest, rfl, hm⟩ := endpoints_eq_true.mp hends
      have hreq : request env b (.dealer msg) = .none := by simp only [request, hm]; rfl
      have hquiet : ∀ x ∈ sends, x.toSub = false := by
        have hq : (DoubleDecker.step env b (.dealer msg)).Quiet := quiet_step rfl
          (by rw [hreq]; rfl)
        rwa [hs] at hq
      obtain ⟨b₁, heff, hsame⟩ := step_effect hs
      rw [hreq] at heff
      cases heff
      have htop : ∀ s, topicsOf b' s = topicsOf b s := fun s => by
        rw [topicsOf, hsame.subscribeHt]
        rfl
      have hlive' : liveSubs b' = ∅ := (liveSubs_congr hok hok' htop).trans hlive
      refine ⟨storesOk_of_empty hok' (hsame.topicsTrie.trans htrie) hlive', ?_⟩
      rw [hsubs, hends, if_pos rfl, h.before hc, tellNorth, northTold_quiet hquiet,
        below_of_ofClients rfl, hbelow, localKeys, hlive']
      rfl
  | true =>
    rw [hc, Bool.true_or] at hconn
    rw [hc, if_pos rfl, Bool.and_eq_true, Bool.not_eq_true', Bool.or_eq_true,
      Bool.not_eq_true'] at hsafe
    obtain ⟨hends, hsafe⟩ := hsafe
    obtain ⟨hst, hone⟩ := h.after hc
    refine ⟨fun hc' => (by rw [hconn] at hc'; cases hc'), fun _ => ?_⟩
    rw [hsubs, hends, if_neg Bool.false_ne_true, hone, tellNorth]
    cases he : e.ofClients with
    | true =>
      have hprop := hsafe.resolve_left (by simp [he])
      have hstores := hprop
      rw [propagationSafe, Bool.and_eq_true] at hstores
      refine ⟨hst.step hinj hok hstores.1 hs, ?_⟩
      rw [(tells_step hinj hok hst he hprop hs).north hc, below_of_ofClients he]
    | false =>
      obtain ⟨rfl, htold⟩ := forwarded he hc hx hs (localKeys b)
      exact ⟨hst, by rw [htold]⟩

/-- A broker is connected when a `REGOK` with endpoints came. -/
theorem Run.connectedN {cfg : Config} (h : Run env cfg es b) :
    b.connectedN = es.any Event.endpoints := by
  induction h with
  | init => rfl
  | step _ _ hs ih => rw [step_connectedN hs, ih, List.any_cons, Bool.or_comm]

omit [DecidableEq H] in
theorem length_tellNorth (sends : List Send) (subs : List (Multiset Frame)) :
    (tellNorth sends subs).length = subs.length := by cases subs <;> rfl

/-- The two kinds of sockets are opened together. -/
theorem Run.length_northSubs {cfg : Config} (h : Run env cfg es b) :
    (northSubs env (ddBrokerNew H cfg) es).length = northPubs es := by
  induction h with
  | init => rfl
  | @step es _ _ e _ hrun _ _ ih =>
    rw [northSubs, hrun.runEvents]
    simp only [length_tellNorth]
    rw [northPubs, List.countP_cons, ← northPubs]
    split <;> simp [ih]

/-- The sockets are as they have to be in every run whose steps keep them in step. -/
theorem Run.northOk (hinj : Function.Injective env.xxh32) {cfg : Config} (h : Run env cfg es b)
    (hx : fromXpub es) (hsafe : meetsAfter env (northSafe env) (ddBrokerNew H cfg) es) :
    NorthOk env (ddBrokerNew H cfg) es b := by
  induction h with
  | init => exact ⟨fun _ => rfl, fun hc => by cases hc⟩
  | @step es b b' e sends hrun _ hs ih =>
    rw [meetsAfter, hrun.runEvents, Bool.and_eq_true] at hsafe
    refine (ih ?_ hsafe.1).step hinj (Reachable.tablesOk hinj ⟨es, hrun⟩) hrun.runEvents hx
      hsafe.2 hs
    unfold fromXpub at hx
    split at hx
    · next heq => cases heq
    · next heq =>
      cases heq
      rw [Bool.and_eq_true] at hx
      exact hx.2
    · next heq =>
      cases heq
      exact hx

/-- **Subscriptions to the north survive** — in every run that keeps its sockets in step and has
come to a `REGOK` with endpoints, one pub socket is read and one sub socket, which has the
subscriptions of the local clients and those from below, and a publication for a local client comes
once. -/
theorem north_survives (hinj : Function.Injective env.xxh32) {cfg : Config} (h : Run env cfg es b)
    (hx : fromXpub es) (hsafe : meetsAfter env (northSafe env) (ddBrokerNew H cfg) es)
    (hconn : es.any Event.endpoints) :
    northPubs es = 1 ∧ northSubs env (ddBrokerNew H cfg) es = [localKeys b + below es] ∧
    ∀ s, ∀ t ∈ topicsOf b s, ∀ pubtopic, t.bytes <+: pubtopic →
      copies (northSubs env (ddBrokerNew H cfg) es) pubtopic = 1 := by
  have hsubs := ((h.northOk hinj hx hsafe).after (h.connectedN.trans hconn)).2
  refine ⟨by rw [← h.length_northSubs, hsubs]; rfl, hsubs, fun s t ht pubtopic hpre => ?_⟩
  have hlive := ((Reachable.tablesOk hinj ⟨es, h⟩).mem_liveSubs s t).mpr ht
  have hkey : t.bytes ∈ localKeys b + below es :=
    Multiset.mem_add.mpr (Or.inl (Multiset.mem_map.mpr ⟨(s, t), hlive, rfl⟩))
  have hpos : 0 < (localKeys b + below es).countP fun key => key <+: pubtopic :=
    Multiset.countP_pos.mpr ⟨t.bytes, hkey, hpre⟩
  rw [hsubs, copies, List.countP_singleton, decide_eq_true hpos]
  rfl

/-! ### Before and after the first `REGOK` -/

/-- A broker with a higher broker. -/
def lowerConfig : Config := { demoConfig with dealer := true }

/-- The `REGOK` of the higher broker. -/
def regokEvent : Event := .dealer (ddMsg .regok [(cookieOf 65).1, [], []])

/-- The broker connects, a client subscribes, a lower broker does. -/
def subsAfterRegok : List Event := .pubS [1 :: CStr.ascii "b.z"] :: twoTopics.tail ++ [regokEvent]

/-- Subscriptions made after the broker connected. -/
theorem north_survives_subsAfterRegok : ∃ b : DdBroker (List UInt8),
    Run plainEnv lowerConfig subsAfterRegok b ∧ northPubs subsAfterRegok = 1 ∧
    northSubs plainEnv (ddBrokerNew _ lowerConfig) subsAfterRegok =
      [localKeys b + below subsAfterRegok] ∧
    ∀ s, ∀ t ∈ topicsOf b s, ∀ pubtopic, t.bytes <+: pubtopic →
      copies (northSubs plainEnv (ddBrokerNew _ lowerConfig) subsAfterRegok) pubtopic = 1 := by
  have hsome : (runEvents plainEnv (ddBrokerNew _ lowerConfig) subsAfterRegok).isSome := by
    decide +kernel
  obtain ⟨b, hb⟩ := Option.isSome_iff_exists.mp hsome
  have hrun : Run plainEnv lowerConfig subsAfterRegok b := .of_runEvents hb
  exact ⟨b, hrun, north_survives Function.injective_id hrun (by decide)
    (by decide +kernel) (by decide)⟩

/-- A client subscribes, the broker connects. -/
def subsBeforeRegok : List Event := regokEvent :: twoTopics.tail

theorem subsBeforeRegok_keys : (runEvents plainEnv (ddBrokerNew _ lowerConfig)
    subsBeforeRegok).map (fun b =>
      ((northSubs plainEnv (ddBrokerNew _ lowerConfig) subsBeforeRegok).map Multiset.card,
        (localKeys b + below subsBeforeRegok).card)) = some ([0], 1) := by
  decide +kernel

/-- **Subscriptions to the north do not always survive** — one made before the first `REGOK` is not
told to the socket opened there. -/
theorem not_north_survives : ¬ ∀ (H : Type) [DecidableEq H] (env : Env H),
    Function.Injective env.xxh32 → ∀ (cfg : Config) (es : List Event) (b : DdBroker H),
    Run env cfg es b → fromXpub es → es.any Event.endpoints → northPubs es = 1 ∧
    northSubs env (ddBrokerNew H cfg) es = [localKeys b + below es] := by
  intro hall
  obtain ⟨b, hb, hfacts⟩ := Option.map_eq_some_iff.mp subsBeforeRegok_keys
  rw [Prod.mk.injEq] at hfacts
  obtain ⟨-, hsubs⟩ := hall _ plainEnv Function.injective_id lowerConfig subsBeforeRegok b
    (.of_runEvents hb) (by decide) (by decide)
  rw [hsubs, List.map_singleton, hfacts.2] at hfacts
  exact absurd hfacts.1 (by decide)

end DoubleDecker
