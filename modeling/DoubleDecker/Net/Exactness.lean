import DoubleDecker.Broker.Notices
import DoubleDecker.Net.Directory

/-!
# Net/Exactness — the directories of a tree at rest

Clients come and go anywhere in the tree, and their names go up link by link.  On every link the
mapping of the higher broker and the name of the lower one are the two ends of a `Mirror`
(`BrokerTree.Tracked`), so that with no name on its way all directories are exact.
-/

namespace DoubleDecker

open BrokerTree

variable {ι H : Type} [DecidableEq ι] [DecidableEq H] {env : Env H} {t : BrokerTree ι}

/-! ## The queues of a broker -/

section

variable {i j : ι} {sends : List Send}

omit [DecidableEq H] in
/-- What goes up is what is for the higher broker. -/
theorem sentTo_up (i k : ι) (sends : List Send) :
    Fifo.sentTo (.up k) (sends.filterMap (t.spot i)) =
      if k = i then sends.filterMap Send.toHigher else [] := by
  induction sends with
  | nil => split <;> rfl
  | cons x sends ih =>
    have hcons : Fifo.sentTo (.up k) ((x :: sends).filterMap (t.spot i)) =
        (if k = i then (Send.toHigher x).toList else []) ++
          Fifo.sentTo (.up k) (sends.filterMap (t.spot i)) := by
      cases x with
      | dsock m =>
        by_cases hk : k = i
        · simp [Fifo.sentTo, spot, hk, Send.toHigher]
        · simp [Fifo.sentTo, spot, hk, Ne.symm hk]
      | rsock d m =>
        cases hd : t.child i d <;> simp [Fifo.sentTo, spot, hd, Send.toHigher]
      | pubN | pubS | subN | subS => split <;> rfl
    rw [hcons, ih, List.filterMap_cons]
    split
    · cases Send.toHigher x <;> rfl
    · rfl

omit [DecidableEq H] in
/-- What goes down is what is for the socket of the lower broker. -/
theorem mem_sentTo_down {m : List Frame} : m ∈ Fifo.sentTo (.down j) (sends.filterMap (t.spot i)) ↔
    t.parent j = some i ∧ .rsock (t.sockid j) m ∈ sends := by
  simp only [Fifo.sentTo, List.mem_map, List.mem_filter, List.mem_filterMap, decide_eq_true_eq]
  constructor
  · rintro ⟨⟨q, m'⟩, ⟨⟨x, hx, hspot⟩, rfl⟩, rfl⟩
    cases x with
    | rsock d m =>
      rw [spot] at hspot
      split at hspot
      · next k hk =>
        cases hspot
        obtain ⟨hparent, rfl⟩ := t.child_eq_some.mp hk
        exact ⟨hparent, hx⟩
      · cases hspot
    | dsock | pubN | pubS | subN | subS => cases hspot
  · rintro ⟨hparent, hx⟩
    refine ⟨(.down j, m), ⟨⟨_, hx, ?_⟩, rfl⟩, rfl⟩
    rw [spot, t.child_sockid hparent]

end

/-! ## What holds between the ends of every link -/

/-- What waits in the queues of a link about a name: the notices on their way up, and the refusals
on their way down. -/
def noticesUp (n : Fifo ι (Spot ι) (DdBroker H) (List Frame)) (i : ι) (name : CStr) : List Notice :=
  (n.waiting (.up i)).filterMap (noticeFor name)

def refusalsDown (n : Fifo ι (Spot ι) (DdBroker H) (List Frame)) (i : ι) (name : CStr) : ℕ :=
  (n.waiting (.down i)).countP fun m => decide (refusalOf m = some name)

variable (t env) in
/-- **Every broker in its place** — its tables are in order, it is registered with its parent, and
the brokers registered with it are its children. -/
structure Standing (b : ι → DdBroker H) : Prop where
  tables : ∀ i, TablesOk env (b i)
  registry : ∀ i, RegistryOk (b i)
  registered : ∀ {i p}, t.parent i = some p → (b i).state = .registered
  known : ∀ {i p}, t.parent i = some p → fromBroker env (b p) (t.sockid i) (b i).keys.cookie.1
  sealed : ∀ p, ∀ br ∈ (b p).lclBrHt.nodes, (t.child p br.sockid).isSome

variable (t env) in
/-- **The two ends of every link belong together.** -/
structure Tracked (n : Fifo ι (Spot ι) (DdBroker H) (List Frame)) : Prop
    extends Standing env t n.state where
  ups : ∀ {i p}, t.parent i = some p → ∀ m ∈ n.waiting (.up i), UpMessage (n.state i).keys m
  mirror : ∀ {i p}, t.parent i = some p → ∀ name, Mirror ((n.state p).Maps name (t.sockid i))
    (noticesUp n i name) ((n.state i).Has name) (refusalsDown n i name)

variable (t env) in
/-- **A refusal is of the name as it is** — it meets no notice about a name that its broker has, and
no mapping of it. -/
def RefusalsFresh (n : Fifo ι (Spot ι) (DdBroker H) (List Frame)) (i : ι) (e : Event) : Prop :=
  ∀ m name, e = .dealer m → refusalOf m = some name → (n.state i).Has name →
    noticesUp n i name = [] ∧ ∀ p, t.parent i = some p → ¬ (n.state p).Maps name (t.sockid i)

variable {n n' : Fifo ι (Spot ι) (DdBroker H) (List Frame)}

/-- The name that an event from above refuses. -/
def refusedBy : Event → Option CStr
  | .dealer m => refusalOf m
  | _ => none

instance (i : ι) (e : Event) : Decidable (RefusalsFresh t n i e) :=
  decidable_of_iff (∀ name ∈ refusedBy e, (n.state i).Has name → noticesUp n i name = [] ∧
      ∀ p ∈ t.parent i, ¬ (n.state p).Maps name (t.sockid i)) (by
    constructor
    · rintro h m name rfl hm hhas
      exact h name hm hhas
    · intro h name hname hhas
      cases e with
      | dealer m => exact h m name rfl hname hhas
      | router | subN | subS | pubN | pubS | register | heartbeat | checkCliTimeout
      | checkBrTimeout => cases hname)

omit [DecidableEq ι] [DecidableEq H] in
theorem fromBroker_congr [DecidableEq H] {b b' : DdBroker H} (h : b'.lclBrHt = b.lclBrHt)
    (s cookie : Frame) : fromBroker env b' s cookie = fromBroker env b s cookie := by
  simp only [fromBroker, hashtableHasLocalBroker, h]

omit [DecidableEq ι] in
/-- A step keeps the brokers in their places. -/
theorem Standing.step [DecidableEq ι] (hinj : Function.Injective env.xxh32) {b : ι → DdBroker H}
    (h : Standing env t b) {i : ι} {e : Event} {b' : DdBroker H} {sends : List Send}
    (hsteady : Steady env (b i) e) (hs : step env (b i) e = .done b' sends) :
    Standing env t (Function.update b i b') := by
  obtain ⟨hstate, hbr⟩ := hsteady.stays _ _ hs
  have hkeys := (step_frame hs).keys
  have hsame : ∀ j, TablesOk env (Function.update b i b' j) ∧
    RegistryOk (Function.update b i b' j) ∧
      (Function.update b i b' j).state = (b j).state ∧
      (Function.update b i b' j).lclBrHt = (b j).lclBrHt ∧
      (Function.update b i b' j).keys = (b j).keys := by
    intro j
    by_cases hj : j = i
    · subst hj
      rw [Function.update_self]
      exact ⟨(h.tables j).step hinj hs, (h.registry j).step hinj (h.tables j) hs, hstate, hbr,
        hkeys⟩
    · rw [Function.update_of_ne hj]
      exact ⟨h.tables j, h.registry j, rfl, rfl, rfl⟩
  refine ⟨fun j => (hsame j).1, fun j => (hsame j).2.1, fun hp => ?_,
    fun {j p} hp => ?_, fun p => ?_⟩
  · exact (hsame _).2.2.1.trans (h.registered hp)
  · have hknown := h.known hp
    rw [(hsame j).2.2.2.2]
    rwa [fromBroker_congr (hsame p).2.2.2.1]
  · rw [(hsame p).2.2.2.1]
    exact h.sealed p

variable (t) in
/-- **A broker handles an event** that came from outside, or from the head of a queue: what is left
in the queues, and what it sends. -/
def Handles (n n' : Fifo ι (Spot ι) (DdBroker H) (List Frame)) (i : ι) (e : Event)
    (sends : List Send) : Prop :=
  (t.outside i (n.state i) e ∧
    ∀ q, n'.waiting q = n.waiting q ++ Fifo.sentTo q (sends.filterMap (t.spot i))) ∨
  ∃ q₀ m rest, n.waiting q₀ = m :: rest ∧ t.arrive q₀ m = some (i, e) ∧
    ∀ q, n'.waiting q = (if q = q₀ then rest else n.waiting q) ++
      Fifo.sentTo q (sends.filterMap (t.spot i))

section

variable {i j p : ι} {e : Event} {sends : List Send}

omit [DecidableEq H]

omit [DecidableEq ι] in
/-- A broker is not its own parent. -/
theorem parent_ne (hp : t.parent i = some p) : p ≠ i := by
  rintro rfl
  have hdepth := t.depth_parent hp
  omega

omit [DecidableEq ι] in
theorem arrive_up {m : List Frame} {e' : Event} (hp : t.parent j = some p)
    (h : t.arrive (.up j) m = some (i, e')) : p = i ∧ e' = .router (t.sockid j :: m) := by
  rw [arrive, hp] at h
  cases h
  exact ⟨rfl, rfl⟩

omit [DecidableEq ι] in
theorem arrive_down {m : List Frame} {e' : Event} (h : t.arrive (.down j) m = some (i, e')) :
    j = i ∧ e' = .dealer m := by
  cases h
  exact ⟨rfl, rfl⟩

/-- A queue that leads elsewhere loses nothing. -/
theorem Handles.waiting (h : Handles t n n' i e sends) {q : Spot ι}
    (hq : ∀ m e', t.arrive q m ≠ some (i, e')) :
    n'.waiting q = n.waiting q ++ Fifo.sentTo q (sends.filterMap (t.spot i)) := by
  obtain ⟨-, h⟩ | ⟨q₀, m, rest, -, harr, h⟩ := h
  · exact h q
  · rw [h, if_neg]
    rintro rfl
    exact hq m e harr

/-- The queue up from the broker itself. -/
theorem Handles.up_self (h : Handles t n n' i e sends) (hp : t.parent i = some p) :
    n'.waiting (.up i) = n.waiting (.up i) ++ sends.filterMap Send.toHigher := by
  rw [h.waiting fun m e' harr => parent_ne hp (arrive_up hp harr).1, sentTo_up, if_pos rfl]

/-- The queue up from a broker that has another parent. -/
theorem Handles.up_stranger (h : Handles t n n' i e sends) (hj : j ≠ i) (hp : t.parent j = some p)
    (hne : p ≠ i) : n'.waiting (.up j) = n.waiting (.up j) := by
  rw [h.waiting fun m e' harr => hne (arrive_up hp harr).1, sentTo_up, if_neg hj, List.append_nil]

/-- **The queue up from a child**: it stays, and the event does not come from the child, or its head
is handled. -/
theorem Handles.up_child (h : Handles t n n' i e sends) (hp : t.parent j = some i) :
    (n'.waiting (.up j) = n.waiting (.up j) ∧ ∀ msg cmd rest, e = .router msg →
      routerCmd msg ≠ some (t.sockid j, cmd, rest)) ∨
    ∃ m, n.waiting (.up j) = m :: n'.waiting (.up j) ∧ e = .router (t.sockid j :: m) := by
  have hj : j ≠ i := (parent_ne hp).symm
  obtain ⟨hout, h⟩ | ⟨q₀, m, rest, hq, harr, h⟩ := h
  · refine Or.inl ⟨by rw [h, sentTo_up, if_neg hj, List.append_nil], ?_⟩
    rintro msg cmd rest rfl hm
    obtain ⟨r, rfl⟩ := exists_of_routerCmd hm
    rw [outside, t.child_sockid hp] at hout
    cases hout
  · rw [h, sentTo_up, if_neg hj, List.append_nil]
    split
    · next hjq =>
      subst hjq
      exact Or.inr ⟨m, hq, (arrive_up hp harr).2⟩
    · next hne =>
      refine Or.inl ⟨rfl, ?_⟩
      rintro msg cmd rest rfl hm
      obtain ⟨r, rfl⟩ := exists_of_routerCmd hm
      cases q₀ with
      | up k =>
        rw [arrive, Option.map_eq_some_iff] at harr
        obtain ⟨p, hk, heq⟩ := harr
        simp only [Prod.mk.injEq, Event.router.injEq, List.cons.injEq] at heq
        obtain ⟨rfl, hsock, -⟩ := heq
        have hchild := (t.child_sockid hk).symm.trans (hsock ▸ t.child_sockid hp)
        exact hne (congrArg Spot.up (Option.some.inj hchild).symm)
      | down k => cases harr
      | out k d => cases harr

/-- **The queue down to the broker itself**: it stays, or its head is handled. -/
theorem Handles.down_self (h : Handles t n n' i e sends) :
    n'.waiting (.down i) = n.waiting (.down i) ∨
    ∃ m, n.waiting (.down i) = m :: n'.waiting (.down i) ∧ e = .dealer m := by
  have hnone : Fifo.sentTo (.down i) (sends.filterMap (t.spot i)) = [] :=
    List.eq_nil_iff_forall_not_mem.mpr fun m hm => parent_ne (mem_sentTo_down.mp hm).1 rfl
  obtain ⟨-, h⟩ | ⟨q₀, m, rest, hq, harr, h⟩ := h
  · exact Or.inl (by rw [h, hnone, List.append_nil])
  · rw [h, hnone, List.append_nil]
    split
    · next hiq =>
      subst hiq
      exact Or.inr ⟨m, hq, (arrive_down harr).2⟩
    · exact Or.inl rfl

/-- The queue down to another broker. -/
theorem Handles.down_other (h : Handles t n n' i e sends) (hj : j ≠ i) :
    n'.waiting (.down j) = n.waiting (.down j) ++
      Fifo.sentTo (.down j) (sends.filterMap (t.spot i)) :=
  h.waiting fun _ _ harr => hj (arrive_down harr).1

end

omit [DecidableEq ι] [DecidableEq H] in
/-- A refusal that was sent down is on its way. -/
theorem refusalsDown_pos {j : ι} {name : CStr} {m : List Frame} (hm : m ∈ n.waiting (.down j))
    (hrefuse : refusalOf m = some name) : 0 < refusalsDown n j name :=
  List.countP_pos_iff.mpr ⟨m, hm, decide_eq_true hrefuse⟩

section

variable {i j p : ι} {e : Event} {self' : DdBroker H} {sends : List Send}

/-- The link up from the broker that handles the event. -/
theorem Tracked.mirror_self (hinj : Function.Injective env.xxh32) (h : Tracked env t n)
    (hs : step env (n.state i) e = .done self' sends) (hsteady : Steady env (n.state i) e)
    (hkept : NamesKept env (n.state i) e) (hfresh : RefusalsFresh t n i e)
    (hhandles : Handles t n n' i e sends) (hp : t.parent i = some p) (name : CStr) :
    Mirror ((n.state p).Maps name (t.sockid i)) (noticesUp n' i name) (self'.Has name)
      (refusalsDown n' i name) := by
  have hword : noticesUp n' i name = noticesUp n i name ++ notices name sends := by
    rw [noticesUp, hhandles.up_self hp, List.filterMap_append]
    rfl
  rw [hword]
  refine (h.mirror hp name).step_up hinj (h.tables i) (h.registry i) hsteady hkept hs
    (h.registered hp) (fun hother => ?_) fun m he hm hhas => ?_
  · obtain hstays | ⟨m, htaken, he⟩ := hhandles.down_self
    · rw [refusalsDown, refusalsDown, hstays]
    · rw [refusalsDown, refusalsDown, htaken]
      exact Nat.le_of_eq (List.countP_cons_of_neg fun hm => hother m he (of_decide_eq_true hm))
  · obtain ⟨hquiet, hnot⟩ := hfresh m name he hm hhas
    exact ⟨hquiet, hnot p hp⟩

/-- The link up from a child of the broker. -/
theorem Tracked.mirror_child (hinj : Function.Injective env.xxh32) (h : Tracked env t n)
    (hs : step env (n.state i) e = .done self' sends) (hsteady : Steady env (n.state i) e)
    (hkept : NamesKept env (n.state i) e) (hhandles : Handles t n n' i e sends)
    (hp : t.parent j = some i) (name : CStr) :
    Mirror (self'.Maps name (t.sockid j)) (noticesUp n' j name) ((n.state j).Has name)
      (refusalsDown n' j name) := by
  have hdown := hhandles.down_other (parent_ne hp).symm
  have hr : refusalsDown n j name ≤ refusalsDown n' j name := by
    rw [refusalsDown, refusalsDown, hdown, List.countP_append]
    exact Nat.le_add_right _ _
  have hpos : ∀ m, .rsock (t.sockid j) m ∈ sends → refusalOf m = some name →
      0 < refusalsDown n' j name := by
    intro m hm hrefuse
    refine refusalsDown_pos ?_ hrefuse
    rw [hdown]
    exact List.mem_append_right _ (mem_sentTo_down.mpr ⟨hp, hm⟩)
  have hmirror := h.mirror hp name
  obtain ⟨hstays, hsource⟩ | ⟨m, htaken, he⟩ := hhandles.up_child hp
  · rw [noticesUp] at hmirror ⊢
    rw [hstays]
    exact hmirror.step_other hinj (h.tables i) (h.registry i) hsteady hkept hs hr hpos hsource
  · have hword : noticesUp n j name = (noticeFor name m).toList ++ noticesUp n' j name := by
      rw [noticesUp, htaken, List.filterMap_cons]
      cases noticeFor name m <;> rfl
    rw [hword] at hmirror
    have hup := h.ups hp m (htaken ▸ List.mem_cons_self)
    exact hmirror.step_sender hinj (h.tables i) (h.registry i) hsteady hkept hs he hup (h.known hp)
      hr hpos

end

/-- **A broker handles an event**: the two ends of every link stay together. -/
theorem Tracked.step (hinj : Function.Injective env.xxh32) (h : Tracked env t n) {i : ι} {e : Event}
    {self' : DdBroker H} {sends : List Send} (hs : step env (n.state i) e = .done self' sends)
    (hsteady : Steady env (n.state i) e) (hkept : NamesKept env (n.state i) e)
    (hfresh : RefusalsFresh t n i e) (hstate : n'.state = Function.update n.state i self')
    (hhandles : Handles t n n' i e sends) : Tracked env t n' := by
  have hself : n'.state i = self' := by rw [hstate, Function.update_self]
  have hother : ∀ {j}, j ≠ i → n'.state j = n.state j := fun hj => by
    rw [hstate, Function.update_of_ne hj]
  have hstanding : Standing env t n'.state := hstate ▸ h.toStanding.step hinj hsteady hs
  refine ⟨hstanding, fun {j p} hp m hm => ?_, fun {j p} hp name => ?_⟩
  · by_cases hj : j = i
    · subst hj
      rw [hself, (step_frame hs).keys]
      rw [hhandles.up_self hp] at hm
      exact (List.mem_append.mp hm).elim (h.ups hp m)
        (step_ups hinj (h.tables j) (h.registry j) hsteady hkept hs (h.registered hp) m)
    · rw [hother hj]
      refine h.ups hp m ?_
      by_cases hpi : p = i
      · subst hpi
        obtain ⟨hstays, -⟩ | ⟨m', htaken, -⟩ := hhandles.up_child hp
        · exact hstays ▸ hm
        · exact htaken ▸ List.mem_cons_of_mem _ hm
      · exact hhandles.up_stranger hj hp hpi ▸ hm
  · by_cases hj : j = i
    · subst hj
      rw [hself, hother (parent_ne hp)]
      exact h.mirror_self hinj hs hsteady hkept hfresh hhandles hp name
    · rw [hother hj]
      by_cases hpi : p = i
      · subst hpi
        rw [hself]
        exact h.mirror_child hinj hs hsteady hkept hhandles hp name
      · rw [hother hpi]
        have hnone : Fifo.sentTo (.down j) (sends.filterMap (t.spot i)) = [] :=
          List.eq_nil_iff_forall_not_mem.mpr fun m hm =>
            hpi (Option.some.inj (hp.symm.trans (mem_sentTo_down.mp hm).1))
        have hdown := hhandles.down_other hj
        rw [hnone, List.append_nil] at hdown
        have hmirror := h.mirror hp name
        rw [noticesUp, refusalsDown] at hmirror ⊢
        rw [hhandles.up_stranger hj hp hpi, hdown]
        exact hmirror

/-! ## Runs -/

variable (t env) in
/-- **No broker fails or registers anew** in the step. -/
def KeepsLinks (n : Fifo ι (Spot ι) (DdBroker H) (List Frame)) (e : FifoEvent ι (Spot ι) Event) :
    Prop :=
  ∀ i e', n.next (t.system env) e = some (i, e') → Steady env (n.state i) e'

variable (t env) in
/-- **No two names meet** in the step — a client that registers is announced under its whole name,
an `UNREGDCLI` meets no entry of another broker, and a `REGFAIL` is of the name as it is. -/
def NamesApart (n : Fifo ι (Spot ι) (DdBroker H) (List Frame)) (e : FifoEvent ι (Spot ι) Event) :
    Prop :=
  ∀ i e', n.next (t.system env) e = some (i, e') →
    NamesKept env (n.state i) e' ∧ RefusalsFresh t n i e'

omit [DecidableEq ι] in
theorem forall_next_iff {P : ι → Event → Prop} {e : FifoEvent ι (Spot ι) Event} :
    (∀ x ∈ n.next (t.system env) e, P x.1 x.2) ↔
      ∀ i e', n.next (t.system env) e = some (i, e') → P i e' :=
  ⟨fun h i e' he => h (i, e') he, fun h x hx => h x.1 x.2 hx⟩

instance (n : Fifo ι (Spot ι) (DdBroker H) (List Frame)) (e : FifoEvent ι (Spot ι) Event) :
    Decidable (KeepsLinks env t n e) := decidable_of_iff _ forall_next_iff

instance (n : Fifo ι (Spot ι) (DdBroker H) (List Frame)) (e : FifoEvent ι (Spot ι) Event) :
    Decidable (NamesApart env t n e) := decidable_of_iff _ forall_next_iff

/-- **Every event keeps the two ends of every link together.** -/
theorem Tracked.act (hinj : Function.Injective env.xxh32) (h : Tracked env t n)
    {e : FifoEvent ι (Spot ι) Event} (hkeeps : KeepsLinks env t n e) (hnames : NamesApart env t n e)
    (hact : n.act (t.system env) e = some n') : Tracked env t n' := by
  obtain ⟨i, e', self', msgs, hnext, hstep, hstate, hwhere⟩ := Fifo.act_cases hact
  obtain ⟨sends, hs, rfl⟩ := system_step_eq_some hstep
  obtain ⟨hkept, hfresh⟩ := hnames i e' hnext
  refine h.step hinj hs (hkeeps i e' hnext) hkept hfresh hstate ?_
  obtain ⟨-, hout, hq⟩ | ⟨q₀, m, rest, -, hq₀, harr, hq⟩ := hwhere
  · exact Or.inl ⟨hout, hq⟩
  · exact Or.inr ⟨q₀, m, rest, hq₀, harr, hq⟩

/-! ## At rest -/

/-- An `ADDDCL`, an `UNREGDCLI` or a `REGFAIL`. -/
def aboutNames (m : List Frame) : Bool :=
  ((dealerCmd m).any fun p => decide (p.1 = .adddcl ∨ p.1 = .unregdcli)) || (refusalOf m).isSome

/-- **No name is on its way.** -/
def AtRest (n : Fifo ι (Spot ι) (DdBroker H) (List Frame)) : Prop :=
  ∀ i, ∀ m, m ∈ n.waiting (.up i) ∨ m ∈ n.waiting (.down i) → aboutNames m = false

omit [DecidableEq ι] [DecidableEq H] in
/-- Only questions are left at rest. -/
theorem AtRest.asks (h : AtRest n) (i : ι) (name : CStr) : ∀ x ∈ noticesUp n i name, x = .ask := by
  intro x hx
  obtain ⟨m, hm, hx⟩ := List.mem_filterMap.mp hx
  have hrest := h i m (Or.inl hm)
  unfold noticeFor noticeOf at hx
  rw [aboutNames, Bool.or_eq_false_iff] at hrest
  split at hx
  · next hcmd => simp [hcmd] at hrest
  · next hcmd => simp [hcmd] at hrest
  · simp only [Option.bind_some, Option.ite_none_right_eq_some, Option.some.injEq] at hx
    exact hx.2.symm
  · cases hx

omit [DecidableEq ι] [DecidableEq H] in
/-- No refusal is left at rest. -/
theorem AtRest.refusals (h : AtRest n) (i : ι) (name : CStr) : refusalsDown n i name = 0 := by
  refine List.countP_eq_zero.mpr fun m hm hrefuse => ?_
  have hrest := h i m (Or.inr hm)
  rw [aboutNames, of_decide_eq_true hrefuse] at hrest
  simp at hrest

omit [DecidableEq ι] in
/-- **At rest every link is exact.** -/
theorem Tracked.maps_iff (h : Tracked env t n) (hrest : AtRest n) {i p : ι}
    (hp : t.parent i = some p) (name : CStr) :
    (n.state p).Maps name (t.sockid i) ↔ (n.state i).Has name := by
  have hmirror := h.mirror hp name
  rw [hrest.refusals] at hmirror
  exact hmirror.exact (hrest.asks i name)

omit [DecidableEq ι] in
/-- A broker maps names to its children only. -/
theorem Standing.exists_child {b : ι → DdBroker H} (h : Standing env t b) {p : ι} {name : CStr}
    {s : Frame} (hmaps : (b p).Maps name s) : ∃ j, t.child p s = some j := by
  obtain ⟨br, hbr, rfl⟩ := (h.registry p).hung name s hmaps
  exact Option.isSome_iff_exists.mp (h.sealed p br hbr)

section

variable {b : ι → DdBroker H}

omit [DecidableEq ι] [DecidableEq H]

/-- With exact links a broker has the names at and below it. -/
theorem has_of_below (hlinks : ∀ {i p}, t.parent i = some p → ∀ name,
    (b p).Maps name (t.sockid i) ↔ (b i).Has name) {i r : ι} {name : CStr} (hi : i ∈ t.above r)
    (hr : (b r).HasClient name) : (b i).Has name := by
  have hway := t.mem_above_iff.mp hi
  clear hi
  induction hway with
  | refl => exact Or.inl hr
  | tail _ hp ih => exact Or.inr ⟨_, (hlinks hp name).mpr ih⟩

/-- With exact links a name that a broker has is at or below it. -/
theorem below_of_has (hlinks : ∀ {i p}, t.parent i = some p → ∀ name,
    (b p).Maps name (t.sockid i) ↔ (b i).Has name)
    (hchild : ∀ {p name s}, (b p).Maps name s → ∃ j, t.child p s = some j) {height : ℕ}
    (hheight : ∀ i, t.depth i ≤ height) {name : CStr} {i : ι} (hi : (b i).Has name) :
    ∃ r, i ∈ t.above r ∧ (b r).HasClient name := by
  -- the way down is no longer than the height
  suffices hdown : ∀ k i, height < t.depth i + k → (b i).Has name →
      ∃ r, i ∈ t.above r ∧ (b r).HasClient name from hdown (height + 1) i (by omega) hi
  intro k
  induction k with
  | zero =>
    intro i hk
    have := hheight i
    omega
  | succ k ih =>
    rintro i hk (hc | ⟨s, hmaps⟩)
    · exact ⟨i, t.self_mem_above i, hc⟩
    · obtain ⟨j, hj⟩ := hchild hmaps
      obtain ⟨hp, rfl⟩ := t.child_eq_some.mp hj
      have hdepth := t.depth_parent hp
      obtain ⟨r, hr, hc⟩ := ih j (by omega) ((hlinks hp name).mp hmaps)
      exact ⟨r, t.parent_mem_above hr hp, hc⟩

/-- **Exact links make exact directories.** -/
theorem exact_of_links (hlinks : ∀ {i p}, t.parent i = some p → ∀ name,
    (b p).Maps name (t.sockid i) ↔ (b i).Has name)
    (hchild : ∀ {p name s}, (b p).Maps name s → ∃ j, t.child p s = some j) {height : ℕ}
    (hheight : ∀ i, t.depth i ≤ height) : t.Exact b where
  sound {p name s} hmaps := by
    obtain ⟨j, hj⟩ := hchild hmaps
    obtain ⟨hp, rfl⟩ := t.child_eq_some.mp hj
    obtain ⟨r, hr, hc⟩ := below_of_has hlinks hchild hheight ((hlinks hp name).mp hmaps)
    exact ⟨j, r, hj, hr, hc⟩
  complete hp hj hr := (hlinks hp _).mpr (has_of_below hlinks hj hr)

/-- **Exact directories make exact links.** -/
theorem BrokerTree.Exact.maps_iff (h : t.Exact b) {i p : ι} (hp : t.parent i = some p)
    (name : CStr) :
    (b p).Maps name (t.sockid i) ↔ (b i).Has name := by
  constructor
  · intro hmaps
    obtain ⟨j, r, hj, hr, hc⟩ := h.sound hmaps
    obtain rfl : i = j := Option.some.inj ((t.child_sockid hp).symm.trans hj)
    obtain hc | ⟨k, -, -, hk⟩ := h.found hr hc
    · exact Or.inl hc
    · exact Or.inr ⟨_, hk⟩
  · rintro (hc | ⟨s, hmaps⟩)
    · exact h.complete hp (t.self_mem_above i) hc
    · obtain ⟨r, hr, hc⟩ := h.below hmaps
      exact h.complete hp hr hc

/-- **Exact directories name nobody twice.** -/
theorem BrokerTree.Exact.unique [DecidableEq H] {env : Env H} (h : t.Exact b)
    (hok : ∀ i, TablesOk env (b i)) (hapart : ∀ i name, (b i).Apart name) {name : CStr} {a r r' : ι}
    (ha : a ∈ t.above r) (ha' : a ∈ t.above r') (hr : (b r).HasClient name)
    (hr' : (b r').HasClient name) : r = r' := by
  induction hd : t.depth r - t.depth a using Nat.strong_induction_on generalizing a with
  | _ d ih =>
    obtain rfl | ⟨k, hk, hkr⟩ := eq_or_exists_link ha
    · obtain h' | ⟨k', hk', hkr'⟩ := eq_or_exists_link ha'
      · exact h'
      · exact absurd (h.complete hk' hkr' hr') (hapart a name hr _)
    · have hmaps := h.complete hk hkr hr
      obtain rfl | ⟨k', hk', hkr'⟩ := eq_or_exists_link ha'
      · exact absurd hmaps (hapart a name hr' _)
      · -- both are behind the one link that the name is mapped to
        have hsock := (hok a).maps_unique hmaps (h.complete hk' hkr' hr')
        have hchild := (t.child_sockid hk).symm.trans (hsock ▸ t.child_sockid hk')
        obtain rfl : k = k' := Option.some.inj hchild
        have hdepth := t.depth_parent hk
        have hle := depth_le_of_above hkr
        exact ih _ (by omega) hkr hkr' rfl

end

omit [DecidableEq ι] in
/-- **At rest the directories are exact.** -/
theorem Tracked.exact (h : Tracked env t n) (hrest : AtRest n) {height : ℕ}
    (hheight : ∀ i, t.depth i ≤ height) : t.Exact n.state :=
  exact_of_links (fun hp => h.maps_iff hrest hp) (fun hmaps => h.exists_child hmaps) hheight

omit [DecidableEq ι] in
/-- **What the tree starts from**: everyone in its place, exact directories, and empty queues. -/
theorem Tracked.start (hstanding : Standing env t n.state) (hexact : t.Exact n.state)
    (hempty : ∀ q, n.queue q = []) : Tracked env t n := by
  have hnone : ∀ q, n.waiting q = [] := fun q => by rw [Fifo.waiting, hempty]; rfl
  refine ⟨hstanding, fun _ m hm => ?_, fun {i p} hp name => Or.inl ?_⟩
  · rw [hnone] at hm
    cases hm
  · rw [noticesUp, hnone]
    exact hexact.maps_iff hp name

/-- **Directories are exact at rest** in every run in which no two names meet. -/
theorem directories_exact (hinj : Function.Injective env.xxh32) {cfg : ι → Config} {height : ℕ}
    (hheight : ∀ i, t.depth i ≤ height) (hreach : ∀ i, Reachable env (cfg i) (n.state i))
    (hlinks : t.Linked env n.state)
    (hsealed : ∀ p, ∀ br ∈ (n.state p).lclBrHt.nodes, (t.child p br.sockid).isSome)
    (hexact : t.Exact n.state) (hempty : ∀ q, n.queue q = [])
    {es : List (FifoEvent ι (Spot ι) Event)}
    (hkeeps : n.meets (t.system env) (KeepsLinks env t) es)
    (hapart : n.meets (t.system env) (NamesApart env t) es)
    (hrun : n.run (t.system env) es = some n') (hrest : AtRest n') :
    t.Exact n'.state ∧ ∀ name r r', t.Joined r r' → (n'.state r).HasClient name →
      (n'.state r').HasClient name → r = r' := by
  have hstanding : Standing env t n.state := ⟨fun i => (hreach i).tablesOk hinj,
    fun i => (hreach i).registryOk hinj, hlinks.registered, hlinks.known, hsealed⟩
  have htracked : Tracked env t n' := Fifo.run_induction (Tracked env t)
    (fun n e => KeepsLinks env t n e ∧ NamesApart env t n e)
    (fun n e n' h hcond hact => h.act hinj hcond.1 hcond.2 hact)
    (.start hstanding hexact hempty) (hkeeps.and hapart) hrun
  have hexact' := htracked.exact hrest hheight
  refine ⟨hexact', fun name r r' ⟨a, ha, ha'⟩ hr hr' => ?_⟩
  exact hexact'.unique htracked.tables (fun i => (htracked.registry i).apart) ha ha' hr hr'

/-! ### Two brokers and a name -/

/-- The two brokers, linked, without clients. -/
def linkedPair : Option (DdBroker (List UInt8) × DdBroker (List UInt8)) := do
  let lower ← runEvents plainEnv (ddBrokerNew _ lowerConfig) [regokEvent]
  let root ← runEvents plainEnv (ddBrokerNew _ demoConfig)
    [.router (challokMsg [1] (cookieOf 82) (text "hashR") (text "broker"))]
  return (lower, root)

theorem linkedPair_empty : linkedPair.map (fun r => decide (r.1.state = .registered) &&
    decide (r.2.state = .root) && fromBroker plainEnv r.2 [1] r.1.keys.cookie.1 &&
    decide (r.1.lclCliHt.nodes = []) && decide (r.1.distCliHt.nodes = []) &&
    decide (r.1.lclBrHt.nodes = []) && decide (r.2.lclCliHt.nodes = []) &&
    decide (r.2.distCliHt.nodes = []) && decide (∀ br ∈ r.2.lclBrHt.nodes, br.sockid = [1])) =
    some true := by
  decide

/-- What the two start from. -/
theorem linkedPair_start {lower root : DdBroker (List UInt8)}
    (h : linkedPair = some (lower, root)) :
    (∀ i, Reachable plainEnv (pairConfig i) ((pairNet lower root).state i)) ∧
    pairTree.Linked plainEnv (pairNet lower root).state ∧
    (∀ p, ∀ br ∈ ((pairNet lower root).state p).lclBrHt.nodes,
      (pairTree.child p br.sockid).isSome) ∧ pairTree.Exact (pairNet lower root).state := by
  obtain ⟨⟨lower', root'⟩, hpair, hfacts⟩ := Option.map_eq_some_iff.mp linkedPair_empty
  cases h.symm.trans hpair
  simp only [Bool.and_eq_true, decide_eq_true_eq] at hfacts
  obtain ⟨⟨⟨⟨⟨⟨⟨⟨hregistered, hroot⟩, hknown⟩, hlower⟩, hlowerDist⟩, hlowerBr⟩, hrootCli⟩,
    hrootDist⟩, hrootBr⟩ := hfacts
  simp only [linkedPair, Option.bind_eq_bind, Option.pure_def, Option.bind_eq_some_iff,
    Option.some.injEq, Prod.mk.injEq] at h
  obtain ⟨_, hlowerRun, _, hrootRun, rfl, rfl⟩ := h
  refine ⟨fun i => ?_, ⟨fun {i} hi => ?_, fun {i p} hi => ?_, fun {i p} hi => ?_,
    fun {i} c hc => ?_⟩, fun p br hbr => ?_, ⟨?_, ?_⟩⟩
  · cases i
    · exact ⟨_, .of_runEvents hrootRun⟩
    · exact ⟨_, .of_runEvents hlowerRun⟩
  · cases i
    · exact hroot
    · cases hi
  · cases i
    · cases hi
    · exact hregistered
  · cases i
    · cases hi
    · cases hi
      exact hknown
  · cases i
    · exact absurd (hrootCli ▸ hc) List.not_mem_nil
    · exact absurd (hlower ▸ hc) List.not_mem_nil
  · cases p
    · rw [hrootBr br hbr]
      rfl
    · exact absurd (hlowerBr ▸ hbr) List.not_mem_nil
  · rintro p name s ⟨dn, hdn, -⟩
    cases p
    · exact absurd (hrootDist ▸ hdn) List.not_mem_nil
    · exact absurd (hlowerDist ▸ hdn) List.not_mem_nil
  · rintro p j r name - - ⟨c, hc, -⟩
    cases r
    · exact absurd (hrootCli ▸ hc) List.not_mem_nil
    · exact absurd (hlower ▸ hc) List.not_mem_nil

/-- A client of a broker comes as `a.x`, and goes. -/
def comes (i : Bool) : FifoEvent Bool (Spot Bool) Event :=
  .outside i (.router (challokMsg [2] (cookieOf 65) (text "hashA") (text "x")))

def goes (i : Bool) : FifoEvent Bool (Spot Bool) Event :=
  .outside i (.router ([2] :: ddMsg .unreg [(cookieOf 65).1]))

/-- The root has the name and refuses that of the lower broker, which comes again once it is
free. -/
def comesTwice : List (FifoEvent Bool (Spot Bool) Event) :=
  [comes false, comes true, .move (.up true), .move (.down true), goes false, comes true,
    .move (.up true)]

/-- The root has the name.  It refuses that of the lower broker, whose client goes and comes again
before the refusal arrives. -/
def refusedLate : List (FifoEvent Bool (Spot Bool) Event) :=
  [comes false, comes true, .move (.up true), goes true, comes true, goes false, .move (.up true),
    .move (.up true), .move (.down true)]

theorem refusedLate_facts : (linkedPair.bind fun r =>
    ((pairNet r.1 r.2).run (pairTree.system plainEnv) refusedLate).map fun n' =>
      (decide ((pairNet r.1 r.2).meets (pairTree.system plainEnv) (KeepsLinks plainEnv pairTree)
        refusedLate) && decide (∀ i, n'.queue (.up i) = [] ∧ n'.queue (.down i) = []) &&
        decide ((n'.state false).Maps (text "a.x") [1]) &&
        decide (∀ i, (n'.state i).lclCliHt.nodes = []))) = some true := by
  decide

theorem comesTwice_facts : (linkedPair.bind fun r =>
    ((pairNet r.1 r.2).run (pairTree.system plainEnv) comesTwice).map fun n' =>
      (decide ((pairNet r.1 r.2).meets (pairTree.system plainEnv) (KeepsLinks plainEnv pairTree)
        comesTwice) && decide ((pairNet r.1 r.2).meets (pairTree.system plainEnv)
          (NamesApart plainEnv pairTree) comesTwice) &&
        decide (∀ i, n'.queue (.up i) = [] ∧ n'.queue (.down i) = []) &&
        decide ((n'.state false).Maps (text "a.x") [1]))) = some true := by
  decide

/-- After the refusal nobody has the name, and then the client of the lower broker. -/
theorem directories_exact_comesTwice :
    ∃ (n n' : Fifo Bool (Spot Bool) (DdBroker (List UInt8)) (List Frame)),
      n.run (pairTree.system plainEnv) comesTwice = some n' ∧ (n'.state false).Maps (text "a.x")
        [1] ∧
      pairTree.Exact n'.state ∧ ∀ name r r', pairTree.Joined r r' → (n'.state r).HasClient name →
        (n'.state r').HasClient name → r = r' := by
  obtain ⟨⟨lower, root⟩, hpair, hrun⟩ := Option.bind_eq_some_iff.mp comesTwice_facts
  obtain ⟨n', hrun, hfacts⟩ := Option.map_eq_some_iff.mp hrun
  simp only [Bool.and_eq_true, decide_eq_true_eq] at hfacts
  obtain ⟨⟨⟨hkeeps, hapart⟩, hempty⟩, hmaps⟩ := hfacts
  obtain ⟨hreach, hlinks, hsealed, hexact⟩ := linkedPair_start hpair
  refine ⟨_, n', hrun, hmaps, ?_⟩
  refine directories_exact Function.injective_id (show ∀ i, pairTree.depth i ≤ 1 by decide) hreach
    hlinks hsealed hexact (fun _ => rfl) hkeeps hapart hrun fun i m hm => ?_
  rw [Fifo.waiting, Fifo.waiting, (hempty i).1, (hempty i).2] at hm
  rcases hm with hm | hm <;> cases hm

/-- **Directories are not always exact at rest** — a late `REGFAIL` removes a client that came after
the one it is about, and the root keeps the name of nobody. -/
theorem not_directories_exact : ¬ ∀ (ι H : Type) [DecidableEq ι] [DecidableEq H] (env : Env H)
    (t : BrokerTree ι) (cfg : ι → Config) (height : ℕ)
    (n n' : Fifo ι (Spot ι) (DdBroker H) (List Frame)) (es : List (FifoEvent ι (Spot ι) Event)),
    Function.Injective env.xxh32 → (∀ i, t.depth i ≤ height) →
    (∀ i, Reachable env (cfg i) (n.state i)) → t.Linked env n.state →
    (∀ p, ∀ br ∈ (n.state p).lclBrHt.nodes, (t.child p br.sockid).isSome) → t.Exact n.state →
    (∀ q, n.queue q = []) → n.meets (t.system env) (KeepsLinks env t) es →
    n.run (t.system env) es = some n' → AtRest n' → t.Exact n'.state := by
  intro h
  obtain ⟨⟨lower, root⟩, hpair, hrun⟩ := Option.bind_eq_some_iff.mp refusedLate_facts
  obtain ⟨n', hrun, hfacts⟩ := Option.map_eq_some_iff.mp hrun
  simp only [Bool.and_eq_true, decide_eq_true_eq] at hfacts
  obtain ⟨⟨⟨hkeeps, hempty⟩, hmaps⟩, hgone⟩ := hfacts
  obtain ⟨hreach, hlinks, hsealed, hexact⟩ := linkedPair_start hpair
  have hrest : AtRest n' := fun i m hm => by
    rw [Fifo.waiting, Fifo.waiting, (hempty i).1, (hempty i).2] at hm
    rcases hm with hm | hm <;> cases hm
  have hexact' := h Bool _ plainEnv pairTree pairConfig 1 _ n' refusedLate Function.injective_id
    (by decide) hreach hlinks hsealed hexact (fun _ => rfl) hkeeps hrun hrest
  obtain ⟨j, r, -, -, c, hc, -⟩ := hexact'.sound hmaps
  exact absurd (hgone r ▸ hc) List.not_mem_nil

end DoubleDecker
