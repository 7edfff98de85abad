import DoubleDecker.Broker.Publications
import DoubleDecker.Library.Spread
import DoubleDecker.Net.Tree
import Mathlib.Algebra.BigOperators.Group.Finset.Piecewise
import Mathlib.Algebra.Order.Group.Multiset
import Mathlib.Data.Fintype.Card

/-!
# Net/Flood — a publication in a tree of brokers

A publication reaches every broker of the tree once, in whatever order its copies are handled.  A
parent sends what it got from a child back down to all of its children; the child it came from finds
its own id in it and drops it.  `BrokerTree.cover` says which brokers are left to a copy: those
below a broker it goes down to, or those not below the broker it came up from.
-/

namespace DoubleDecker

open Trie

variable {ι H : Type} [Fintype ι] [DecidableEq ι]

namespace BrokerTree

variable (t : BrokerTree ι)

/-! ## Below a broker, and beside it -/

/-- The brokers right below a broker. -/
def children (p : ι) : Finset ι := Finset.univ.filter fun i => t.parent i = some p

/-- A broker and those below it. -/
def below (j : ι) : Finset ι := Finset.univ.filter fun r => j ∈ t.above r

instance (o r : ι) : Decidable (t.Joined o r) :=
  decidable_of_iff (∃ a ∈ t.above o, a ∈ t.above r) Iff.rfl

/-- The brokers of the tree. -/
def whole (o : ι) : Finset ι := Finset.univ.filter fun r => t.Joined o r

/-- The brokers of the tree that are not below a broker. -/
def beside (o i : ι) : Finset ι := Finset.univ.filter fun r => t.Joined o r ∧ i ∉ t.above r

variable {t} {o i j k p r : ι}

@[simp] theorem mem_children : i ∈ t.children p ↔ t.parent i = some p := by simp [children]

@[simp] theorem mem_below : r ∈ t.below j ↔ j ∈ t.above r := by simp [below]

@[simp] theorem mem_whole : r ∈ t.whole o ↔ t.Joined o r := by simp [whole]

@[simp] theorem mem_beside : r ∈ t.beside o i ↔ t.Joined o r ∧ i ∉ t.above r := by simp [beside]

/-! ## Sums over the brokers -/

section

variable {M : Type*} [AddCommMonoid M] (f : ι → M)

/-- No broker is below two siblings. -/
theorem pairwiseDisjoint_below (s : Finset ι) (hs : s ⊆ t.children p) :
    (s : Set ι).PairwiseDisjoint t.below := by
  intro i hi j hj hne
  refine Finset.disjoint_left.mpr fun r hir hjr => hne ?_
  exact eq_of_above (mem_children.mp (hs hi)) (mem_children.mp (hs hj)) (mem_below.mp hir)
    (mem_below.mp hjr)

/-- **Below a broker** are the broker itself and those below its children. -/
theorem sum_below (p : ι) :
    ∑ r ∈ t.below p, f r = f p + ∑ k ∈ t.children p, ∑ r ∈ t.below k, f r := by
  have hsplit : t.below p = insert p ((t.children p).biUnion t.below) := by
    ext r
    simp only [mem_below, Finset.mem_insert, Finset.mem_biUnion, mem_children]
    constructor
    · intro h
      exact (eq_or_exists_link h).imp_left Eq.symm
    · rintro (rfl | ⟨k, hk, hr⟩)
      · exact t.self_mem_above r
      · exact t.parent_mem_above hr hk
  have hnot : p ∉ (t.children p).biUnion t.below := by
    intro h
    obtain ⟨k, hk, hp⟩ := Finset.mem_biUnion.mp h
    exact not_above_parent (mem_children.mp hk) (mem_below.mp hp)
  rw [hsplit, Finset.sum_insert hnot,
    Finset.sum_biUnion (pairwiseDisjoint_below _ (Finset.Subset.refl _))]
/-- **Beside a broker** are its parent, those beside the parent, and those below its siblings. -/
theorem sum_beside (hi : t.parent i = some p) (hio : i ∈ t.above o) :
    ∑ r ∈ t.beside o i, f r =
      f p + (∑ r ∈ t.beside o p, f r + ∑ k ∈ (t.children p).erase i, ∑ r ∈ t.below k, f r) := by
  have hpo := t.parent_mem_above hio hi
  have hsplit : t.beside o i =
      insert p (t.beside o p ∪ ((t.children p).erase i).biUnion t.below) := by
    ext r
    simp only [mem_beside, Finset.mem_insert, Finset.mem_union, Finset.mem_biUnion,
      Finset.mem_erase, mem_below, mem_children]
    constructor
    · rintro ⟨hjoined, hir⟩
      by_cases hpr : p ∈ t.above r
      · obtain rfl | ⟨k, hk, hkr⟩ := eq_or_exists_link hpr
        · exact Or.inl rfl
        · exact Or.inr (Or.inr ⟨k, ⟨fun hki => hir (hki ▸ hkr), hk⟩, hkr⟩)
      · exact Or.inr (Or.inl ⟨hjoined, hpr⟩)
    · rintro (rfl | ⟨hjoined, hpr⟩ | ⟨k, ⟨hki, hk⟩, hkr⟩)
      · exact ⟨⟨r, hpo, t.self_mem_above r⟩, not_above_parent hi⟩
      · exact ⟨hjoined, fun hir => hpr (t.parent_mem_above hir hi)⟩
      · exact ⟨⟨p, hpo, t.parent_mem_above hkr hk⟩, fun hir => hki (eq_of_above hk hi hkr hir)⟩
  have hdisj : Disjoint (t.beside o p) (((t.children p).erase i).biUnion t.below) := by
    refine Finset.disjoint_left.mpr fun r hr hbelow => (mem_beside.mp hr).2 ?_
    obtain ⟨k, hk, hkr⟩ := Finset.mem_biUnion.mp hbelow
    exact t.parent_mem_above (mem_below.mp hkr) (mem_children.mp (Finset.mem_of_mem_erase hk))
  have hnot : p ∉ t.beside o p ∪ ((t.children p).erase i).biUnion t.below := by
    intro h
    obtain h | h := Finset.mem_union.mp h
    · exact (mem_beside.mp h).2 (t.self_mem_above p)
    · obtain ⟨k, hk, hp⟩ := Finset.mem_biUnion.mp h
      exact not_above_parent (mem_children.mp (Finset.mem_of_mem_erase hk)) (mem_below.mp hp)
  rw [hsplit, Finset.sum_insert hnot, Finset.sum_union hdisj,
    Finset.sum_biUnion (pairwiseDisjoint_below _ (Finset.erase_subset _ _))]

/-- The tree is what is beside a broker and what is below it. -/
theorem sum_whole (o : ι) :
    ∑ r ∈ t.whole o, f r = ∑ r ∈ t.beside o o, f r + ∑ r ∈ t.below o, f r := by
  have hsplit : t.whole o = t.beside o o ∪ t.below o := by
    ext r
    simp only [mem_whole, Finset.mem_union, mem_beside, mem_below]
    constructor
    · intro h
      exact (em (o ∈ t.above r)).symm.imp_left fun hr => ⟨h, hr⟩
    · rintro (⟨h, -⟩ | h)
      · exact h
      · exact ⟨o, t.self_mem_above o, h⟩
  have hdisj : Disjoint (t.beside o o) (t.below o) :=
    Finset.disjoint_left.mpr fun r hr hbelow => (mem_beside.mp hr).2 (mem_below.mp hbelow)
  rw [hsplit, Finset.sum_union hdisj]

/-- Nothing is beside a root. -/
theorem beside_root (hp : t.parent p = none) (hpo : p ∈ t.above o) : t.beside o p = ∅ := by
  refine Finset.eq_empty_of_forall_notMem fun r hr => ?_
  obtain ⟨⟨a, hao, har⟩, hpr⟩ := mem_beside.mp hr
  exact hpr (above_trans har (root_mem_above hpo hp hao))

end

/-! ## The system -/

variable (t)

/-- What a message on the publication sockets becomes: one copy at the higher broker, or one at
every lower broker. -/
def copies (i : ι) : Send → Multiset (ι × Event)
  | .pubN m => ((t.parent i).map fun p => (p, Event.subS m)).elim 0 fun c => {c}
  | .pubS m => (t.children i).val.map fun j => (j, .subN m)
  | _ => 0

variable [DecidableEq H] (env : Env H)

/-- **The brokers and the copies between them**: a copy is handled by the broker it is for; anything
else can happen at a broker meanwhile.  The places are brokers that look a topic up. -/
def flooding : SpreadSystem (ι → DdBroker H) (ι × Event) (ι × Event) (ι × CStr) where
  handle b c :=
    match step env (b c.1) c.2 with
    | .done b' sends => some (Function.update b c.1 b',
        (lookedUp env (b c.1) c.2).elim 0 fun topic => {(c.1, topic)},
        (sends.map (t.copies c.1)).sum)
    | .fault _ => none
  other b e :=
    if e.2.enabled (b e.1) then
      match step env (b e.1) e.2 with
      | .done b' _ => some (Function.update b e.1 b')
      | .fault _ => none
    else none

/-- A client publishes at a broker. -/
def publish (b : ι → DdBroker H) (o : ι) (e : Event) :
    Option (Spread (ι → DdBroker H) (ι × Event) (ι × CStr)) :=
  ((t.flooding env).handle b (o, e)).map fun r => ⟨r.1, r.2.2, r.2.1⟩

/-- **The publication sockets of the tree are connected**, and every lower broker has the id its
parent knows it by. -/
structure PubLinked (b : ι → DdBroker H) : Prop where
  root : ∀ {i}, t.parent i = none → (b i).connectedN = false
  connected : ∀ {i p}, t.parent i = some p → (b i).connectedN
  brokerId : ∀ {i p}, t.parent i = some p → (b i).brokerId = some (t.sockid i)
  nonempty : ∀ {i p}, t.parent i = some p → t.sockid i ≠ []

variable {t} in
omit [Fintype ι] [DecidableEq ι] [DecidableEq H] in
/-- A broker that is connected has an id. -/
theorem PubLinked.isSome_brokerId {b : ι → DdBroker H} (h : t.PubLinked b) (i : ι)
    (hconn : (b i).connectedN) : (b i).brokerId.isSome := by
  cases hp : t.parent i with
  | none => exact absurd hconn (by simp [h.root hp])
  | some p => simp [h.brokerId hp]

/-- The registration of the broker stays as it is. -/
def StableLinks (b : ι → DdBroker H) (e : ι × Event) : Prop :=
  ∀ b' sends, step env (b e.1) e.2 = .done b' sends →
    b'.connectedN = (b e.1).connectedN ∧ b'.brokerId = (b e.1).brokerId

/-! ## What is left to a copy -/

/-- The brokers left to a copy, with the topic they look up. -/
def cover (o : ι) (topic : CStr) : ι × Event → Multiset (ι × CStr)
  | (j, .subN (_ :: _ :: pathv :: _)) =>
    if pathv = t.sockid j then 0 else ∑ r ∈ t.below j, {(r, topic)}
  | (p, .subS (_ :: _ :: pathv :: _)) =>
    match t.child p pathv with
    | some i => ∑ r ∈ t.beside o i, {(r, topic)}
    | none => 0
  | _ => 0

/-- The echoes a copy leads to. -/
def echoes : ι × Event → ℕ
  | (j, .subN (_ :: _ :: pathv :: _)) => if pathv = t.sockid j then 1 else 0
  | (p, .subS (_ :: _ :: pathv :: _)) =>
    match t.child p pathv with
    | some i => t.depth i
    | none => 0
  | _ => 0

/-- The copies of a publication. -/
inductive Copy (o : ι) (topic name : CStr) (payload : List Frame) : ι × Event → Prop
  | down {j p : ι} (pathv : Frame) : t.parent j = some p →
      Copy o topic name payload (j, .subN (topic.bytes :: name.bytes :: pathv :: payload))
  | up {i p : ι} : t.parent i = some p → i ∈ t.above o →
      Copy o topic name payload (p, .subS (topic.bytes :: name.bytes :: t.sockid i :: payload))

/-- The work left to a copy: the brokers and the echoes. -/
def work (o : ι) (topic : CStr) (c : ι × Event) : ℕ := (t.cover o topic c).card + t.echoes c

/-- What a broker needs to handle a copy. -/
structure Ready (b : ι → DdBroker H) : Prop extends t.PubLinked b where
  tight : ∀ i, TightRoot (b i).topicsTrie

variable {t env} {b : ι → DdBroker H} {topic name topic' : CStr} {payload : List Frame}
    {c : ι × Event}

/-! ## The answers to a copy -/

section

variable {M : Type*} [AddCommMonoid M] (f : ι × Event → M)

omit [DecidableEq H] in
/-- What is handed to local clients is no copy. -/
theorem copies_pubLocally (i : ι) (socks : Option (List Frame)) :
    ((pubLocally socks name topic payload).map (t.copies i)).sum = 0 := by
  refine List.sum_eq_zero fun m hm => ?_
  obtain ⟨x, hx, rfl⟩ := List.mem_map.mp hm
  obtain ⟨s, -, rfl⟩ := List.mem_map.mp hx
  rfl

/-- A sum over the copies that go down. -/
theorem sum_copies_pubS (p : ι) (m : List Frame) :
    ((t.copies p (.pubS m)).map f).sum = ∑ k ∈ t.children p, f (k, .subN m) := by
  rw [copies, Multiset.map_map]
  rfl

omit [DecidableEq H] in
/-- A sum over the copies that go up, at a broker of the way up. -/
theorem sum_copies_passNorth (hlinks : t.PubLinked b) (i : ι) :
    ((((passNorth (b i) topic name payload).map (t.copies i)).sum).map f).sum =
      ((t.parent i).map fun p =>
        f (p, .subS (topic.bytes :: name.bytes :: t.sockid i :: payload))).elim 0 id := by
  cases hp : t.parent i with
  | none => simp [passNorth, hlinks.root hp]
  | some p => simp [passNorth, hlinks.connected hp, hlinks.brokerId hp, copies, hp]

end

theorem sum_work (answers : Multiset (ι × Event)) : (answers.map (t.work o topic)).sum =
    (answers.map (t.cover o topic)).sum.card + (answers.map t.echoes).sum := by
  have hcard : (answers.map fun c => (t.cover o topic c).card).sum =
      (answers.map (t.cover o topic)).sum.card :=
    ((Multiset.cardHom.map_multiset_sum _).trans (congrArg _ (Multiset.map_map _ _ _))).symm
  rw [← hcard, ← Multiset.sum_map_add]
  rfl

theorem work_le {here : Multiset (ι × CStr)} {answers : Multiset (ι × Event)}
    (hcover : t.cover o topic c = here + (answers.map (t.cover o topic)).sum)
    (hechoes : (answers.map t.echoes).sum + 1 ≤ here.card + t.echoes c) :
    (answers.map (t.work o topic)).sum + 1 ≤ t.work o topic c := by
  rw [sum_work, work, hcover, Multiset.card_add]
  omega

omit [Fintype ι] [DecidableEq ι] in
/-- Two siblings have different socket ids. -/
theorem sockid_ne (hi : t.parent i = some p) (hk : t.parent k = some p) (hne : k ≠ i) :
    t.sockid i ≠ t.sockid k := fun h => by
  have hchild := (t.child_sockid hi).symm.trans (h ▸ t.child_sockid hk)
  exact hne (Option.some.inj hchild).symm

theorem cover_subN (o j : ι) (topic : CStr) (x y pathv : Frame) (rest : List Frame) :
    t.cover o topic (j, .subN (x :: y :: pathv :: rest)) =
      if pathv = t.sockid j then 0 else ∑ r ∈ t.below j, {(r, topic)} := rfl

omit [Fintype ι] [DecidableEq ι] in
theorem echoes_subN (j : ι) (x y pathv : Frame) (rest : List Frame) :
    t.echoes (j, .subN (x :: y :: pathv :: rest)) = if pathv = t.sockid j then 1 else 0 := rfl

omit [Fintype ι] [DecidableEq ι] in
theorem echoes_subS (hp : t.parent i = some p) (x y : Frame) (rest : List Frame) :
    t.echoes (p, .subS (x :: y :: t.sockid i :: rest)) = t.depth i := by
  rw [echoes, t.child_sockid hp]

section

variable (o : ι) (topic name : CStr) (payload : List Frame)

omit [DecidableEq H] in
/-- The copies that go down without an id reach all below. -/
theorem cover_null (hlinks : t.PubLinked b) (p : ι) :
    (((t.copies p (.pubS (topic.bytes :: name.bytes :: [] :: payload))).map
      (t.cover o topic)).sum = ∑ k ∈ t.children p, ∑ r ∈ t.below k, {(r, topic)}) ∧
    ((t.copies p (.pubS (topic.bytes :: name.bytes :: [] :: payload))).map t.echoes).sum = 0 := by
  rw [sum_copies_pubS, sum_copies_pubS]
  have hne : ∀ k ∈ t.children p, [] ≠ t.sockid k := fun k hk =>
    (hlinks.nonempty (mem_children.mp hk)).symm
  exact ⟨Finset.sum_congr rfl fun k hk => if_neg (hne k hk),
    Finset.sum_eq_zero fun k hk => if_neg (hne k hk)⟩

/-- The copies that go down with the id of a child reach all below the others, and come back to the
child as an echo. -/
theorem cover_sibling (hi : t.parent i = some p) :
    (((t.copies p (.pubS (topic.bytes :: name.bytes :: t.sockid i :: payload))).map
      (t.cover o topic)).sum = ∑ k ∈ (t.children p).erase i, ∑ r ∈ t.below k, {(r, topic)}) ∧
    ((t.copies p (.pubS (topic.bytes :: name.bytes :: t.sockid i :: payload))).map
      t.echoes).sum = 1 := by
  rw [sum_copies_pubS, sum_copies_pubS, ← Finset.add_sum_erase _ _ (mem_children.mpr hi),
    ← Finset.add_sum_erase _ _ (mem_children.mpr hi)]
  have hne : ∀ k ∈ (t.children p).erase i, t.sockid i ≠ t.sockid k := fun k hk =>
    sockid_ne hi (mem_children.mp (Finset.mem_of_mem_erase hk)) (Finset.ne_of_mem_erase hk)
  refine ⟨?_, ?_⟩
  · rw [cover_subN, if_pos rfl, zero_add]
    exact Finset.sum_congr rfl fun k hk => if_neg (hne k hk)
  · rw [echoes_subN, if_pos rfl, Nat.add_eq_left]
    exact Finset.sum_eq_zero fun k hk => if_neg (hne k hk)

omit [DecidableEq H] in
/-- The copy that goes up reaches all that is not below. -/
theorem cover_passNorth (hlinks : t.PubLinked b) (hio : i ∈ t.above o) :
    ((((passNorth (b i) topic name payload).map (t.copies i)).sum).map (t.cover o topic)).sum =
      ∑ r ∈ t.beside o i, {(r, topic)} ∧
    ((((passNorth (b i) topic name payload).map (t.copies i)).sum).map t.echoes).sum ≤
      t.depth i := by
  rw [sum_copies_passNorth _ hlinks, sum_copies_passNorth _ hlinks]
  cases hp : t.parent i with
  | none =>
    rw [beside_root hp hio]
    exact ⟨rfl, Nat.zero_le _⟩
  | some p =>
    simp only [Option.map_some, Option.elim_some, id, cover, echoes, t.child_sockid hp]
    exact ⟨trivial, Nat.le_refl _⟩

end

omit [DecidableEq H] in
/-- The copies that go up and down are copies. -/
theorem Copy.of_mem_passNorth (hlinks : t.PubLinked b) (hio : i ∈ t.above o)
    (h : c ∈ ((passNorth (b i) topic name payload).map (t.copies i)).sum) :
    t.Copy o topic name payload c := by
  cases hp : t.parent i with
  | none => simp [passNorth, hlinks.root hp] at h
  | some p =>
    simp [passNorth, hlinks.connected hp, hlinks.brokerId hp, copies, hp] at h
    exact h ▸ .up hp hio

theorem Copy.of_mem_pubS {pathv : Frame}
    (h : c ∈ t.copies p (.pubS (topic.bytes :: name.bytes :: pathv :: payload))) :
    t.Copy o topic name payload c := by
  obtain ⟨k, hk, rfl⟩ := Multiset.mem_map.mp h
  exact .down pathv (mem_children.mp hk)

variable (env) in
/-- **A copy is handled**: its broker looks the topic up unless it is an echo, and what was left to
the copy is left to its answers. -/
theorem Copy.handle (hready : t.Ready b) (hcuts : Cuts topic topic')
    (hc : t.Copy o topic name payload c) :
    ∃ here answers, (t.flooding env).handle b c = some (b, here, answers) ∧
      t.cover o topic c = here + (answers.map (t.cover o topic)).sum ∧
      (answers.map (t.work o topic)).sum + 1 ≤ t.work o topic c ∧
      ∀ c' ∈ answers, t.Copy o topic name payload c' := by
  have hlinks := hready.toPubLinked
  have hlookup : ∀ i, ∃ socks, nnTrieTree (b i).topicsTrie topic.bytes = some socks := fun i => by
    obtain ⟨l, -, -, hl⟩ := (hready.tight i).lookup_tree topic.bytes
    exact ⟨_, hl⟩
  cases hc with
  | @down j p pathv hp =>
    by_cases hecho : pathv = t.sockid j
    · subst hecho
      have hid := hlinks.brokerId hp
      refine ⟨0, 0, ?_, ?_, ?_, fun _ h => absurd h (Multiset.notMem_zero _)⟩
      · simp [flooding, step_subN_echo hid, lookedUp_subN_echo hid]
      · simp [cover]
      · simp [work, cover, echoes]
    · have hid : (b j).brokerId ≠ some pathv := fun h =>
        hecho (Option.some.inj (h.symm.trans (hlinks.brokerId hp)))
      obtain ⟨socks, hsocks⟩ := hlookup j
      obtain ⟨hcover, hechoes⟩ := cover_null o topic name payload hlinks j
      have hsplit : t.cover o topic (j, .subN (topic.bytes :: name.bytes :: pathv :: payload)) =
          {(j, topic)} + ((t.copies j (.pubS (topic.bytes :: name.bytes :: [] :: payload))).map
            (t.cover o topic)).sum := by
        rw [hcover, cover, if_neg hecho, sum_below]
      refine ⟨_, _, ?_, hsplit, work_le hsplit ?_, fun c' h => .of_mem_pubS h⟩
      · simp [flooding, step_subN hid hsocks hcuts, lookedUp_subN hid, copies_pubLocally]
      · rw [hechoes, Multiset.card_singleton]
        omega
  | @up i p hp hio =>
    have hpo := t.parent_mem_above hio hp
    obtain ⟨socks, hsocks⟩ := hlookup p
    obtain ⟨hnorth, hnorth'⟩ := cover_passNorth o topic name payload hlinks hpo
    obtain ⟨hsouth, hsouth'⟩ := cover_sibling o topic name payload hp
    have hsplit : t.cover o topic
          (p, .subS (topic.bytes :: name.bytes :: t.sockid i :: payload)) =
        {(p, topic)} + ((((passNorth (b p) topic name payload).map (t.copies p)).sum +
          t.copies p (.pubS (topic.bytes :: name.bytes :: t.sockid i :: payload))).map
            (t.cover o topic)).sum := by
      rw [Multiset.map_add, Multiset.sum_add, hnorth, hsouth, cover, t.child_sockid hp]
      exact sum_beside _ hp hio
    refine ⟨_, _, ?_, hsplit, work_le hsplit ?_, fun c' h => ?_⟩
    · simp [flooding, step_subS (hlinks.isSome_brokerId p) hsocks hcuts, lookedUp_subS,
        copies_pubLocally]
    · rw [Multiset.map_add, Multiset.sum_add, hsouth', Multiset.card_singleton, echoes_subS hp,
        t.depth_parent hp]
      omega
    · exact (Multiset.mem_add.mp h).elim (.of_mem_passNorth hlinks hpo) .of_mem_pubS

/-- There is work left to every copy. -/
theorem Copy.work_pos (hc : t.Copy o topic name payload c) : 1 ≤ t.work o topic c := by
  cases hc with
  | @down j p pathv hp =>
    rw [work, cover_subN, echoes_subN]
    split
    · exact Nat.le_add_left _ _
    · rw [sum_below, Multiset.card_add, Multiset.card_singleton]
      omega
  | @up i p hp hio =>
    rw [work, echoes_subS hp, t.depth_parent hp]
    omega

/-- **A client publishes**: its broker looks the topic up, and the rest of the tree is left to the
copies it sends. -/
theorem publish_spec (hready : t.Ready b) {msg : List Frame} {source cookie topicFrame : Frame}
    {rest : List Frame} {ln : LocalClient}
    (hmsg : routerCmd msg = some (source, .pub, cookie :: topicFrame :: rest))
    (hacc : acceptedFor env (b o) source cookie = some ln) (hne : CStr.ofBytes topicFrame ≠ ∅)
    (hcompose : composeTopic (b o) ln (CStr.ofBytes topicFrame) = (topic', topic, name)) :
    ∃ n₀, t.publish env b o (.router msg) = some n₀ ∧
      n₀.state = Function.update b o ((b o).touch ln) ∧
      n₀.Covers (t.cover o topic) (t.work o topic) (t.Copy o topic name (zmsgPop rest).2)
        (∑ r ∈ t.whole o, {(r, topic)}) (Fintype.card ι + t.depth o) 1 := by
  have hlinks := hready.toPubLinked
  have ho := t.self_mem_above o
  obtain ⟨l, -, -, hsocks⟩ := (hready.tight o).lookup_tree topic.bytes
  obtain ⟨hnorth, hnorth'⟩ := cover_passNorth o topic name (zmsgPop rest).2 hlinks ho
  obtain ⟨hsouth, hsouth'⟩ := cover_null o topic name (zmsgPop rest).2 hlinks o
  have hstep := step_pubAccepted hmsg hacc hne (hlinks.isSome_brokerId o) hcompose hsocks
  have hlooked := lookedUp_pubAccepted hmsg hacc hne
  rw [hcompose] at hlooked
  set answers := ((passNorth (b o) topic name (zmsgPop rest).2).map (t.copies o)).sum +
    t.copies o (.pubS (topic.bytes :: name.bytes :: [] :: (zmsgPop rest).2)) with hanswers
  refine ⟨⟨Function.update b o ((b o).touch ln), answers, {(o, topic)}⟩, ?_, rfl, ?_⟩
  · simp [publish, flooding, hstep, hlooked, copies_pubLocally, hanswers]
  · have hplaces : {(o, topic)} + (answers.map (t.cover o topic)).sum =
        ∑ r ∈ t.whole o, ({(r, topic)} : Multiset (ι × CStr)) := by
      rw [hanswers, Multiset.map_add, Multiset.sum_add, hnorth, hsouth, sum_whole, sum_below,
        add_left_comm]
    refine ⟨hplaces, ?_, fun c h => ?_⟩
    · have hcard := congrArg Multiset.card hplaces
      have hle : (t.whole o).card ≤ Fintype.card ι := Finset.card_le_univ _
      rw [Multiset.card_add, Multiset.card_singleton, Multiset.card_sum] at hcard
      simp only [Multiset.card_singleton, ← Finset.card_eq_sum_ones] at hcard
      have hechoes : (answers.map t.echoes).sum ≤ t.depth o := by
        rw [hanswers, Multiset.map_add, Multiset.sum_add, hsouth']
        exact hnorth'
      rw [sum_work]
      dsimp only
      omega
    · exact (Multiset.mem_add.mp h).elim (.of_mem_passNorth hlinks ho) .of_mem_pubS

/-! ## Every run -/

omit [Fintype ι] [DecidableEq H] in
/-- A broker that keeps its registration and has a tight trie is ready. -/
theorem Ready.update (h : t.Ready b) {self' : DdBroker H}
    (hconn : self'.connectedN = (b i).connectedN)
    (hid : self'.brokerId = (b i).brokerId) (htight : TightRoot self'.topicsTrie) :
    t.Ready (Function.update b i self') := by
  have hsame : ∀ j, (Function.update b i self' j).connectedN = (b j).connectedN ∧
      (Function.update b i self' j).brokerId = (b j).brokerId ∧
      TightRoot (Function.update b i self' j).topicsTrie := by
    intro j
    by_cases hj : j = i
    · subst hj
      rw [Function.update_self]
      exact ⟨hconn, hid, htight⟩
    · rw [Function.update_of_ne hj]
      exact ⟨rfl, rfl, h.tight j⟩
  exact ⟨⟨fun hp => (hsame _).1.trans (h.root hp), fun hp => (hsame _).1.trans (h.connected hp),
    fun hp => (hsame _).2.1.trans (h.brokerId hp), h.nonempty⟩, fun j => (hsame j).2.2⟩

/-- **What happens at a broker meanwhile** leaves it ready, when its registration stays. -/
theorem Ready.other (h : t.Ready b) {e : ι × Event} {b' : ι → DdBroker H}
    (hstable : StableLinks env b e) (hact : (t.flooding env).other b e = some b') : t.Ready b' := by
  simp only [flooding] at hact
  split at hact
  · split at hact
    · next self' sends hs =>
      cases hact
      obtain ⟨hconn, hid⟩ := hstable self' sends hs
      exact h.update hconn hid (step_tight (h.tight e.1) hs)
    · cases hact
  · cases hact

variable (t env) in
/-- **The publication reached every broker once** — each copy on its way can be handled, no broker
looked the topic up twice, and when no copy is on its way each broker of the tree looked it up.  The
copies handled so far and those on their way are fewer than the brokers and the links above the
publisher's. -/
structure Flooded (o : ι) (topic : CStr) (handled : ℕ)
    (n : Spread (ι → DdBroker H) (ι × Event) (ι × CStr)) : Prop where
  handles : ∀ c ∈ n.flight, (n.act (t.flooding env) (.copy c)).isSome
  atMostOnce : ∀ r, n.seen.count (r, topic) ≤ 1
  once : n.flight = 0 → ∀ r, t.Joined o r → n.seen.count (r, topic) = 1
  finitely : handled + n.flight.card < Fintype.card ι + t.depth o

omit [DecidableEq H] in
/-- A broker of the tree is there once. -/
theorem count_whole (o r : ι) (topic : CStr) :
    (∑ r ∈ t.whole o, ({(r, topic)} : Multiset (ι × CStr))).count (r, topic) =
      if t.Joined o r then 1 else 0 := by
  rw [Multiset.count_sum']
  simp only [Multiset.count_singleton, Prod.mk.injEq, and_true]
  rw [Finset.sum_ite_eq]
  simp

/-- **Publications flood the tree exactly once.** -/
theorem publication_floods {cfg : ι → Config} (hreach : ∀ i, Reachable env (cfg i) (b i))
    (hlinks : t.PubLinked b) {msg : List Frame} {source cookie topicFrame : Frame}
    {rest : List Frame} {ln : LocalClient}
    (hmsg : routerCmd msg = some (source, .pub, cookie :: topicFrame :: rest))
    (hacc : acceptedFor env (b o) source cookie = some ln)
    (hend : ∃ c, (CStr.ofBytes topicFrame).bytes.getLast? = some c ∧ c ≠ 36)
    (hfits : Untruncated (b o) ln (CStr.ofBytes topicFrame)) :
    ∃ n₀, t.publish env b o (.router msg) = some n₀ ∧ ∀ es n',
      n₀.meets (t.flooding env) (StableLinks env) es → n₀.run (t.flooding env) es = some n' →
      t.Flooded env o (composeTopic (b o) ln (CStr.ofBytes topicFrame)).2.1
        (es.countP SpreadEvent.isCopy) n' := by
  obtain ⟨c, hlast, hc⟩ := hend
  have hready : t.Ready b := ⟨hlinks, fun i => (hreach i).tight⟩
  have hne : CStr.ofBytes topicFrame ≠ ∅ := fun h => by
    rw [h] at hlast
    cases hlast
  obtain ⟨es, hrun⟩ := hreach o
  obtain ⟨r, hscope⟩ := (cfg o).brokerScope_bytes
  rw [← hrun.brokerScope] at hscope
  obtain ⟨topic', hcuts⟩ := exists_cuts_composeTopic hscope
    (fun h => hc (Option.some.inj (hlast.symm.trans h))) hfits
  rcases hcompose : composeTopic (b o) ln (CStr.ofBytes topicFrame) with ⟨shown, topic, name⟩
  rw [hcompose] at hcuts
  obtain ⟨n₀, hpublish, hstate, hcovers⟩ := publish_spec hready hmsg hacc hne hcompose
  refine ⟨n₀, hpublish, fun es n' hmeets hrun => ?_⟩
  have hready₀ : t.Ready n₀.state := hstate ▸ hready.update rfl rfl (hready.tight o)
  obtain ⟨hready', hcovers'⟩ := hcovers.run t.Ready
    (fun s e s' hs hstable hact => hs.other hstable hact)
    (fun s c s' here answers hs hc hact => by
      obtain ⟨here', answers', hact', hrest⟩ := Copy.handle env hs hcuts hc
      rw [hact'] at hact
      cases hact
      exact ⟨hs, hrest⟩) hready₀ hmeets hrun
  refine ⟨fun c hc => ?_, fun r => ?_, fun hnone r hr => ?_, ?_⟩
  · obtain ⟨here, answers, hact, -⟩ := Copy.handle env hready' hcuts (hcovers'.all c hc)
    simp [Spread.act, hc, hact]
  · refine (Multiset.count_le_of_le _ hcovers'.seen_le).trans ?_
    rw [count_whole]
    split <;> omega
  · rw [hcovers'.seen_eq hnone, count_whole, if_pos hr]
  · have hcard := hcovers'.card_le fun c hc => hc.work_pos
    omega

end BrokerTree

/-- A lower broker that is called `[1]`, with the client `a.x`. -/
def floodLower : List Event :=
  headRun ++ [regokEvent, .dealer (ddMsg .chall [List.replicate 24 0, [1]])]

/-- The frames of the publication of that client. -/
def newsMsg (pathv : Frame) : List Frame :=
  [CStr.ascii "a.news/1/2/3/", CStr.ascii "x", pathv, [9]]

/-- The client publishes. -/
def newsEvent : List Frame :=
  [1, 2, 3, 4, 5] :: ddMsg .pub [(cookieOf 65).1, CStr.ascii "news", [], [9]]

/-- The copy goes up, and comes back. -/
def newsRun : List (SpreadEvent (Bool × Event) (Bool × Event)) :=
  [.copy (false, .subS (newsMsg [1])), .copy (true, .subN (newsMsg [1]))]

/-- The two brokers. -/
def newsBrokers (lower : DdBroker (List UInt8)) (i : Bool) : DdBroker (List UInt8) :=
  if i then lower else ddBrokerNew _ demoConfig

/-- What the two brokers do for the client. -/
def newsFlood : Option (DdBroker (List UInt8) ×
    Spread (Bool → DdBroker (List UInt8)) (Bool × Event) (Bool × CStr) ×
    Spread (Bool → DdBroker (List UInt8)) (Bool × Event) (Bool × CStr)) := do
  let lower ← runEvents plainEnv (ddBrokerNew _ lowerConfig) floodLower
  let n ← pairTree.publish plainEnv (newsBrokers lower) true (.router newsEvent)
  let n' ← n.run (pairTree.flooding plainEnv) newsRun
  return (lower, n, n')

theorem newsFlood_empty : newsFlood.map (fun r => (decide (r.1.connectedN = true) &&
    decide (r.1.brokerId = some [1]) &&
    decide (acceptedFor plainEnv r.1 [1, 2, 3, 4, 5] (cookieOf 65).1 = some headClient) &&
    decide (Untruncated r.1 headClient (text "news")) &&
    decide ((composeTopic r.1 headClient (text "news")).2.1 = text "a.news/1/2/3/") &&
    decide (r.2.2.flight = 0))) = some true := by
  decide

/-- The publication of a client of the lower broker: both brokers look the topic up once. -/
theorem publication_floods_news : ∃ n n', newsFlood.map Prod.snd = some (n, n') ∧ n'.flight = 0 ∧
    pairTree.Flooded plainEnv true (text "a.news/1/2/3/")
    (newsRun.countP SpreadEvent.isCopy) n' := by
  obtain ⟨⟨lower, n, n'⟩, hflood, hfacts⟩ := Option.map_eq_some_iff.mp newsFlood_empty
  simp only [Bool.and_eq_true, decide_eq_true_eq] at hfacts
  obtain ⟨⟨⟨⟨⟨hconn, hid⟩, hacc⟩, hfits⟩, htopic⟩, hempty⟩ := hfacts
  refine ⟨n, n', by rw [hflood]; rfl, hempty, ?_⟩
  simp only [newsFlood, Option.bind_eq_bind, Option.pure_def, Option.bind_eq_some_iff,
    Option.some.injEq, Prod.mk.injEq] at hflood
  obtain ⟨lower', hlower, n₁, hpublish, n₂, hrun, rfl, rfl, rfl⟩ := hflood
  have hreach : ∀ i, Reachable plainEnv (pairConfig i) (newsBrokers lower' i) := fun i => by
    cases i
    · exact ⟨[], .init⟩
    · exact ⟨_, .of_runEvents hlower⟩
  have hlinks : pairTree.PubLinked (newsBrokers lower') := by
    refine ⟨fun {i} hi => ?_, fun {i p} hi => ?_, fun {i p} hi => ?_,
      fun _ => List.cons_ne_nil _ _⟩
    all_goals cases i
    · rfl
    · cases hi
    · cases hi
    · exact hconn
    · cases hi
    · exact hid
  obtain ⟨n₀, hn₀, hruns⟩ := @BrokerTree.publication_floods Bool (List UInt8) _ _ pairTree true _
    plainEnv (newsBrokers lower') pairConfig hreach hlinks newsEvent [1, 2, 3, 4, 5] (cookieOf 65).1
    (CStr.ascii "news") [[], [9]] headClient (by decide) hacc (by decide) hfits
  obtain rfl : n₀ = n₁ := Option.some.inj (hn₀.symm.trans hpublish)
  have hmeets : n₀.meets (pairTree.flooding plainEnv)
    (BrokerTree.StableLinks plainEnv) newsRun := by
    simp [newsRun, Spread.meets]
  exact htopic ▸ hruns newsRun n₂ hmeets hrun

end DoubleDecker
