import DoubleDecker.Broker.North
import DoubleDecker.Broker.Scope
import DoubleDecker.Library.Fifo
import Mathlib.Logic.Relation

/-!
# Net/Tree — brokers in a tree

Every broker but the root has a higher broker, which calls its dealer socket by a socket id of its
own; the messages on a link arrive in order.  What a broker sends on behalf of a marked event is
marked, so that one notification can be followed through the tree.
-/

namespace DoubleDecker

variable {ι H : Type}

/-! ## Trees -/

/-- **A tree of brokers.**  `sockid` is what a broker's dealer socket is called at its parent, and
`child` finds the broker behind a socket id. -/
structure BrokerTree (ι : Type) where
  parent : ι → Option ι
  sockid : ι → Frame
  child : ι → Frame → Option ι
  child_eq_some : ∀ {p s i}, child p s = some i ↔ parent i = some p ∧ sockid i = s
  depth : ι → Nat
  depth_parent : ∀ {i p}, parent i = some p → depth i = depth p + 1

/-- A queue of the tree: a link upwards or downwards, or what a broker sent to one of its
clients. -/
inductive Spot (ι : Type) where
  | up (i : ι)
  | down (i : ι)
  | out (i : ι) (dest : Frame)
  deriving DecidableEq

namespace BrokerTree

variable (t : BrokerTree ι)

theorem child_sockid {i p : ι} (h : t.parent i = some p) : t.child p (t.sockid i) = some i :=
  t.child_eq_some.mpr ⟨h, rfl⟩

/-- A broker and those above it, as far as `k` links go. -/
def way : Nat → ι → List ι
  | 0, i => [i]
  | k + 1, i =>
    i :: match t.parent i with
      | none => []
      | some p => way k p

/-- A broker and those above it. -/
def above (o : ι) : List ι := t.way (t.depth o) o

theorem self_mem_way (k : Nat) (o : ι) : o ∈ t.way k o := by cases k <;> simp [way]

theorem self_mem_above (o : ι) : o ∈ t.above o := t.self_mem_way _ o

theorem parent_mem_way {k : Nat} {o i p : ι} (hk : t.depth o = k) (hi : i ∈ t.way k o)
    (hp : t.parent i = some p) : p ∈ t.way k o := by
  induction k generalizing o with
  | zero =>
    cases List.mem_singleton.mp hi
    rw [t.depth_parent hp] at hk
    cases hk
  | succ k ih =>
    rw [way] at hi ⊢
    cases hparent : t.parent o with
    | none =>
      rw [hparent] at hi
      cases List.mem_singleton.mp hi
      rw [hparent] at hp
      cases hp
    | some p' =>
      rw [hparent] at hi
      refine List.mem_cons_of_mem _ ?_
      obtain rfl | hi := List.mem_cons.mp hi
      · rw [hparent] at hp
        cases hp
        exact t.self_mem_way k p
      · exact ih (Nat.succ.inj ((t.depth_parent hparent).symm.trans hk)) hi

/-- What is above a broker that is above `o` is above `o`. -/
theorem parent_mem_above {o i p : ι} (hi : i ∈ t.above o) (hp : t.parent i = some p) :
    p ∈ t.above o :=
  t.parent_mem_way rfl hi hp

/-- **Above is the way from parent to parent.** -/
theorem mem_above_iff {o i : ι} :
    i ∈ t.above o ↔ Relation.ReflTransGen (fun a p => t.parent a = some p) o i := by
  refine ⟨fun h => ?_, fun h => ?_⟩
  · suffices hway : ∀ k o, i ∈ t.way k o →
        Relation.ReflTransGen (fun a p => t.parent a = some p) o i from hway _ _ h
    intro k
    induction k with
    | zero =>
      intro o hi
      cases List.mem_singleton.mp hi
      exact .refl
    | succ k ih =>
      intro o hi
      obtain rfl | hi := List.mem_cons.mp hi
      · exact .refl
      · split at hi
        · cases hi
        · next p hp => exact (ih p hi).head hp
  · induction h with
    | refl => exact t.self_mem_above o
    | tail _ hp ih => exact t.parent_mem_above ih hp

variable {t}

theorem above_trans {o i a : ι} (hi : i ∈ t.above o) (ha : a ∈ t.above i) : a ∈ t.above o :=
  t.mem_above_iff.mpr ((t.mem_above_iff.mp hi).trans (t.mem_above_iff.mp ha))

/-- A broker above another one is that one, or has a link on the way to it. -/
theorem eq_or_exists_link {r i : ι} (hi : i ∈ t.above r) :
    i = r ∨ ∃ k, t.parent k = some i ∧ k ∈ t.above r := by
  obtain h | ⟨k, hk, hp⟩ := (t.mem_above_iff.mp hi).cases_tail
  · exact Or.inl h
  · exact Or.inr ⟨k, hp, t.mem_above_iff.mpr hk⟩

/-- The root is above all that are above `o`. -/
theorem root_mem_above {o a root : ι} (hroot : root ∈ t.above o) (hp : t.parent root = none)
    (ha : a ∈ t.above o) : root ∈ t.above a := by
  have huniq : Relator.RightUnique fun a p => t.parent a = some p := fun a p p' h h' =>
    Option.some.inj (h.symm.trans h')
  obtain h | h := Relation.ReflTransGen.total_of_right_unique huniq (t.mem_above_iff.mp ha)
    (t.mem_above_iff.mp hroot)
  · exact t.mem_above_iff.mpr h
  · obtain rfl | ⟨p, hp', -⟩ := h.cases_head
    · exact t.self_mem_above _
    · rw [hp] at hp'
      cases hp'

theorem depth_le_of_above {i r : ι} (h : i ∈ t.above r) : t.depth i ≤ t.depth r := by
  have hway := t.mem_above_iff.mp h
  clear h
  induction hway with
  | refl => exact Nat.le_refl _
  | tail _ hp ih =>
    rw [t.depth_parent hp] at ih
    exact Nat.le_of_succ_le ih

/-- A broker is not above its parent. -/
theorem not_above_parent {i p : ι} (hp : t.parent i = some p) : i ∉ t.above p := fun h => by
  have hle := depth_le_of_above h
  rw [t.depth_parent hp] at hle
  omega

/-- Only one child is on the way up from a broker. -/
theorem eq_of_above {p i j r : ι} (hi : t.parent i = some p) (hj : t.parent j = some p)
    (hir : i ∈ t.above r) (hjr : j ∈ t.above r) : i = j := by
  have hsib : ∀ {i j}, t.parent i = some p → t.parent j = some p →
      Relation.ReflTransGen (fun a p => t.parent a = some p) i j → i = j := by
    intro i j hi hj h
    obtain rfl | ⟨p', hp', h⟩ := h.cases_head
    · rfl
    · cases hi.symm.trans hp'
      exact absurd (t.mem_above_iff.mpr h) (not_above_parent hj)
  have huniq : Relator.RightUnique fun a p => t.parent a = some p := fun a p p' h h' =>
    Option.some.inj (h.symm.trans h')
  obtain h | h := Relation.ReflTransGen.total_of_right_unique huniq (t.mem_above_iff.mp hir)
    (t.mem_above_iff.mp hjr)
  · exact hsib hi hj h
  · exact (hsib hj hi h).symm

variable (t)

/-- Two brokers of one tree. -/
def Joined (o r : ι) : Prop := ∃ a, a ∈ t.above o ∧ a ∈ t.above r

/-! ## The system -/

/-- Where a message a broker sent goes. -/
def spot (i : ι) : Send → Option (Spot ι × List Frame)
  | .dsock m => some (.up i, m)
  | .rsock d m =>
    match t.child i d with
    | some j => some (.down j, m)
    | none => some (.out i d, m)
  | _ => none

/-- Where a message arrives, and as what. -/
def arrive : Spot ι → List Frame → Option (ι × Event)
  | .up i, m => (t.parent i).map fun p => (p, .router (t.sockid i :: m))
  | .down i, m => some (i, .dealer m)
  | .out _ _, _ => none

/-- What comes from outside: timers, publications, and what does not come over a link. -/
def outside (i : ι) (b : DdBroker H) : Event → Bool
  | .router (source :: _) => (t.child i source).isNone
  | .dealer _ => false
  | e => e.enabled b

variable [DecidableEq H]

/-- **The brokers of a tree and their links.** -/
def system (env : Env H) : FifoSystem ι (Spot ι) (DdBroker H) (List Frame) Event where
  arrive := t.arrive
  step i b e :=
    match step env b e with
    | .done b' sends => some (b', sends.filterMap (t.spot i))
    | .fault _ => none
  outside := t.outside

variable {t} {env : Env H} {i : ι} {b : DdBroker H} {e : Event}

theorem system_step_eq_some {b' : DdBroker H} {msgs : List (Spot ι × List Frame)}
    (h : (t.system env).step i b e = some (b', msgs)) :
    ∃ sends, step env b e = .done b' sends ∧ msgs = sends.filterMap (t.spot i) := by
  simp only [system] at h
  split at h
  · next hs =>
    cases h
    exact ⟨_, hs, rfl⟩
  · cases h

/-- Every step keeps the shape of the tables. -/
theorem system_tablesOk (hinj : Function.Injective env.xxh32) (i : ι) (b : DdBroker H) (e : Event)
    (b' : DdBroker H) (msgs : List (Spot ι × List Frame)) (hok : TablesOk env b)
    (h : (t.system env).step i b e = some (b', msgs)) : TablesOk env b' := by
  obtain ⟨sends, hs, -⟩ := system_step_eq_some h
  exact hok.step hinj hs

/-! ## Messages about a notification -/

end BrokerTree

section

variable {ln : LocalClient} {cookie dest : Frame} {payload : List Frame} {src dst : CStr}

/-- The `ERROR_NODST` for a destination and a source. -/
def nodstMsg (dst src : CStr) : List Frame :=
  ddMsg .error [le32 ddErrorNodst, dst.bytes, src.bytes]

theorem nodstMsg_inj {dst src dst' src' : CStr} (h : nodstMsg dst src = nodstMsg dst' src') :
    dst = dst' := by
  simp only [nodstMsg, ddMsg, List.cons.injEq] at h
  exact CStr.ext h.2.2.2.1

variable [DecidableEq H] {env : Env H} {b b' : DdBroker H} {sends : List Send}

/-- **An `ERROR_NODST`** is shown to a local client without the tenant, or passed down. -/
theorem step_nodst (dst src : CStr) : step env b (.dealer (nodstMsg dst src)) =
    match hashtableHasRevLocalNode env b src with
    | some c =>
      match dst.after dot with
      | none => .fault []
      | some name => .done { b with timeout := 0 } [.rsock c.sockid (nodstMsg name src)]
    | none => .done { b with timeout := 0 }
      ((hashtableHasDistNode env b src).toList.map
        fun dn => .rsock dn.broker (nodstMsg dst src)) := by
  have hcode : readU32 (le32 ddErrorNodst) = some ddErrorNodst := by decide
  have hrev : hashtableHasRevLocalNode env { b with timeout := 0 } src =
    hashtableHasRevLocalNode env b src := rfl
  have hdist : hashtableHasDistNode env { b with timeout := 0 } src =
    hashtableHasDistNode env b src := rfl
  rw [nodstMsg, step_dealer (dealerCmd_ddMsg _ _)]
  simp only [onDealerCmd, sCbHighError, zmsgPop, hcode, if_true, zmsgPopstr, CStr.ofBytes_bytes,
    hrev, hdist]
  cases hashtableHasRevLocalNode env b src with
  | some c =>
    simp only
    cases dst.after dot <;> rfl
  | none => cases hashtableHasDistNode env b src <;> rfl

/-- The `SEND` of a client. -/
def sendEvent (ln : LocalClient) (cookie dest : Frame) (payload : List Frame) : Event :=
  .router (ln.sockid :: ddMsg .send (cookie :: dest :: payload))

theorem step_send (hacc : acceptedFor env b ln.sockid cookie = some ln) :
    step env b (sendEvent ln cookie dest payload) =
      carry env (b.touch ln) (decide (ln.tenant = publicName))
        (resolve b.keys ln.tenant (CStr.ofBytes dest)).2 ln.prefixName
        (resolve b.keys ln.tenant (CStr.ofBytes dest)).1 payload
        (sendNodst (b.touch ln) ln.sockid (decide (ln.tenant = publicName))
          (resolve b.keys ln.tenant (CStr.ofBytes dest)).2 ln.prefixName
          (resolve b.keys ln.tenant (CStr.ofBytes dest)).1) :=
  (step_router (routerCmd_ddMsg _ _ _)).trans
    (sCbSend_eq (acceptedFor_eq_some.mp hacc) dest payload)

omit [DecidableEq H] in
/-- The name of a client has a dot. -/
theorem TablesOk.exists_after (hok : TablesOk env b) (hmem : ln ∈ b.lclCliHt.nodes) :
    ∃ name, ln.prefixName.after dot = some name := by
  have hdot : dot ∈ ln.prefixName.bytes := by
    rw [hok.named ln hmem]
    exact List.mem_append_left _ (List.mem_append_right _ List.mem_cons_self)
  exact ⟨_, if_pos hdot⟩

end

namespace BrokerTree

/-! ## One broker on the way of a notification -/

variable [DecidableEq H] {t : BrokerTree ι} {env : Env H} {i : ι} {b : DdBroker H}

variable (t env) in
/-- Whether a broker finds a destination: at a client of its own, or behind a lower broker. -/
def leads (i : ι) (b : DdBroker H) (dst : CStr) : Bool :=
  match hashtableHasRevLocalNode env b dst with
  | some ln => (t.child i ln.sockid).isNone
  | none =>
    match hashtableHasDistNode env b dst with
    | some dn => (t.child i dn.broker).isSome
    | none => false

variable {srcpublic dstpublic : Bool} {src dst : CStr} {payload : List Frame} {nodst : Outcome H}
  {b' : DdBroker H} {sends : List Send}

/-- **A destination that is found** is delivered to, or the notification goes down one link. -/
theorem carry_leads (hleads : t.leads env i b dst)
    (h : carry env b srcpublic dstpublic src dst payload nodst = .done b' sends) :
    (∃ d s, shownSource srcpublic dstpublic src = some s ∧
      (∃ ln, hashtableHasRevLocalNode env b dst = some ln ∧ ln.sockid = d) ∧
      sends.filterMap (t.spot i) = [(.out i d, ddMsg .data (s.bytes :: payload))]) ∨
    ∃ j, hashtableHasRevLocalNode env b dst = none ∧
      (∃ dn, hashtableHasDistNode env b dst = some dn ∧ t.child i dn.broker = some j) ∧
      sends.filterMap (t.spot i) =
        [(.down j, ddMsg .forward (src.bytes :: dst.bytes :: payload))] := by
  unfold carry at h
  unfold leads at hleads
  cases hrev : hashtableHasRevLocalNode env b dst with
  | some ln =>
    rw [hrev] at h hleads
    simp only [deliver_eq] at h
    split at h
    · next s hs =>
      cases h
      refine Or.inl ⟨ln.sockid, s, hs, ⟨ln, rfl, rfl⟩, ?_⟩
      simp [spot, Option.isNone_iff_eq_none.mp hleads]
    · cases h
  | none =>
    rw [hrev] at h hleads
    cases hdist : hashtableHasDistNode env b dst with
    | none =>
      simp only [hdist] at hleads
      cases hleads
    | some dn =>
      simp only [hdist] at h hleads
      obtain ⟨j, hj⟩ := Option.isSome_iff_exists.mp hleads
      cases h
      refine Or.inr ⟨j, rfl, ⟨dn, rfl, hj⟩, ?_⟩
      simp [forwardDown, spot, hj]

/-- Whether a broker has no entry for a destination. -/
def missing (env : Env H) (b : DdBroker H) (dst : CStr) : Bool :=
  (hashtableHasRevLocalNode env b dst).isNone && (hashtableHasDistNode env b dst).isNone

/-- **A destination that is missing** is the root's business. -/
theorem carry_missing (hmissing : missing env b dst) :
    carry env b srcpublic dstpublic src dst payload nodst =
      if b.state = .root then nodst else .done b (forwardUp b src dst payload) := by
  rw [missing, Bool.and_eq_true, Option.isNone_iff_eq_none, Option.isNone_iff_eq_none] at hmissing
  rw [carry, hmissing.1, hmissing.2]

omit [DecidableEq H] in
theorem spot_forwardUp (hstate : b.state = .registered) :
    (forwardUp b src dst payload).filterMap (t.spot i) =
      [(.up i, ddMsg .forward (b.keys.cookie.1 :: src.bytes :: dst.bytes :: payload))] := by
  simp [forwardUp, hstate, spot]

end BrokerTree

/-! ### Two brokers -/

/-- A root, and one broker below it. -/
def pairTree : BrokerTree Bool where
  parent i := if i then some false else none
  sockid _ := [1]
  child p s := if p = false ∧ s = [1] then some true else none
  child_eq_some := by
    intro p s i
    cases p <;> cases i <;> simp [eq_comm]
  depth i := if i then 1 else 0
  depth_parent := by
    intro i p h
    cases i <;> simp_all

/-- The two brokers, with nothing on its way. -/
def pairNet (lower root : DdBroker (List UInt8)) :
    Fifo Bool (Spot Bool) (DdBroker (List UInt8)) (List Frame) where
  state i := if i then lower else root
  queue _ := []

/-- How the two are set up. -/
def pairConfig (i : Bool) : Config := if i then lowerConfig else demoConfig

/-- The lower broker registers and gets the client `a.x`. -/
def lowerRun : List Event := headRun ++ [regokEvent]

/-- The root hears of the broker and of its client. -/
def rootRun : List Event :=
  [.router ([1] :: ddMsg .adddcl [(cookieOf 82).1, CStr.ascii "a.x", le32 0]),
    .router (challokMsg [1] (cookieOf 82) (text "hashR") (text "broker"))]

/-- The client sends a notification. -/
def ask (dest : Frame) : Event := sendEvent headClient (cookieOf 65).1 dest [[7]]

/-- What the two brokers do for the client. -/
def pairRun (rootEvents : List Event) (dest : Frame)
    (es : List (FifoEvent Bool (Spot Bool) Event)) :
    Option (DdBroker (List UInt8) × DdBroker (List UInt8) ×
      Fifo Bool (Spot Bool) (DdBroker (List UInt8)) (List Frame) ×
      Fifo Bool (Spot Bool) (DdBroker (List UInt8)) (List Frame)) := do
  let lower ← runEvents plainEnv (ddBrokerNew _ lowerConfig) lowerRun
  let root ← runEvents plainEnv (ddBrokerNew _ demoConfig) rootEvents
  let n ← (pairNet lower root).handle (pairTree.system plainEnv) true (ask dest) true
  let n' ← n.run (pairTree.system plainEnv) es
  return (lower, root, n, n')

theorem of_pairRun {rootEvents : List Event} {dest : Frame}
    {es : List (FifoEvent Bool (Spot Bool) Event)} {lower root : DdBroker (List UInt8)}
    {n n' : Fifo Bool (Spot Bool) (DdBroker (List UInt8)) (List Frame)}
    (h : pairRun rootEvents dest es = some (lower, root, n, n')) :
    (∀ i, Reachable plainEnv (pairConfig i) ((pairNet lower root).state i)) ∧
    (pairNet lower root).handle (pairTree.system plainEnv) true (ask dest) true = some n ∧
    n.run (pairTree.system plainEnv) es = some n' := by
  simp only [pairRun, Option.bind_eq_bind, Option.pure_def, Option.bind_eq_some_iff,
    Option.some.injEq, Prod.mk.injEq] at h
  obtain ⟨_, hlower, _, hroot, _, hn, _, hn', rfl, rfl, rfl, rfl⟩ := h
  refine ⟨fun i => ?_, hn, hn'⟩
  cases i
  · exact ⟨_, .of_runEvents hroot⟩
  · exact ⟨_, .of_runEvents hlower⟩

end DoubleDecker
