import DoubleDecker.Broker.Delivery
import DoubleDecker.Library.Trail
import DoubleDecker.Net.Exactness

/-!
# Net/Loops — a `FORWARD` and the link it came from

The handlers of `FORWARD` do not look at where it came from: one from above for a name the broker
does not have goes up again, and one from below for a name that is mapped to the broker it came from
goes down again.  Without these two (`Straight`) a `FORWARD` rises and then falls, and a `SEND`
makes no more of them than twice the height of the tree.
-/

namespace DoubleDecker

open BrokerTree

variable {ι H : Type}

/-! ## One broker -/

section

variable [DecidableEq H] {env : Env H} {b b' : DdBroker H} {e : Event} {sends : List Send}
    {x : Send}
  {nf : Notification}

/-- **A broker that sends a `FORWARD`** sends nothing else: it has no client of the name, and passes
it down to where the name is mapped, or up. -/
theorem forward_cases (hinj : Function.Injective env.xxh32) (hok : TablesOk env b)
    (h : step env b e = .done b' sends) (hx : x ∈ sends) (hcmd : x.cmd = some .forward) :
    ∃ nf, notificationOf env b e = some nf ∧ ¬ b.HasClient nf.dst ∧ sends = [x] ∧
      ((∃ d, b.Maps nf.dst d ∧ x = .rsock d nf.down) ∨
        (¬ b.Has nf.dst ∧ b.state = .registered ∧ x = .dsock (nf.up b.keys.cookie.1))) := by
  have hmem : x ∈ (step env b e).sends := by rwa [h]
  obtain ⟨nf, hnf, -⟩ := step_passes hinj hok (Or.inr hcmd) hmem
  obtain ⟨b₁, srcpublic, dstpublic, nodst, hr⟩ := routes_notification hinj hok hnf
  have hok₁ := hr.tables.tablesOk hok
  have hcarry := hr.step.symm.trans h
  refine ⟨nf, hnf, ?_⟩
  unfold carry at hcarry
  cases hrev : hashtableHasRevLocalNode env b₁ nf.dst with
  | some c =>
    rw [hrev] at hcarry
    simp only [deliver_eq] at hcarry
    split at hcarry
    · cases hcarry
      rw [List.mem_singleton.mp hx, cmd_rsock] at hcmd
      cases hcmd
    · cases hcarry
  | none =>
    have hnot := (hok₁.hasRev_eq_none hinj).mp hrev
    rw [HasClient.congr hr.tables.lclCliHt] at hnot
    rw [hrev] at hcarry
    cases hdist : hashtableHasDistNode env b₁ nf.dst with
    | some dn =>
      simp only [hdist] at hcarry
      cases hcarry
      have hmaps := (hok₁.maps_iff hinj).mpr ⟨dn, hdist, rfl⟩
      rw [Maps.congr hr.tables.distCliHt] at hmaps
      obtain rfl := List.mem_singleton.mp hx
      exact ⟨hnot, rfl, Or.inl ⟨dn.broker, hmaps, rfl⟩⟩
    | none =>
      have hnone : ∀ s, ¬ b.Maps nf.dst s := by
        intro s hs
        rw [← Maps.congr hr.tables.distCliHt] at hs
        obtain ⟨dn, hdn, -⟩ := (hok₁.maps_iff hinj).mp hs
        cases hdist.symm.trans hdn
      simp only [hdist] at hcarry
      split at hcarry
      · -- what a root answers is an error
        obtain ⟨⟨msg, rfl⟩, y, dst, src, rfl, hy⟩ | ⟨-, rfl⟩ := hr.nodst
        · cases hcarry
          obtain rfl := List.mem_singleton.mp hx
          unfold Event.reply at hy
          split at hy
          · cases hy
            rw [cmd_rsock] at hcmd
            cases hcmd
          · cases hy
            rw [cmd_dsock] at hcmd
            cases hcmd
          · cases hy
        · cases hcarry
      · cases hcarry
        unfold forwardUp at hx ⊢
        split at hx
        · next hstate =>
          rw [if_pos hstate]
          obtain rfl := List.mem_singleton.mp hx
          refine ⟨hnot, rfl, Or.inr ⟨?_, hr.state.symm.trans hstate, ?_⟩⟩
          · rintro (hc | ⟨s, hs⟩)
            · exact hnot hc
            · exact hnone s hs
          · rw [hr.tables.keys]
            rfl
        · cases hx

/-- **A notification for a name that is mapped** goes down. -/
theorem forward_of_maps (hinj : Function.Injective env.xxh32) (hok : TablesOk env b)
    (hnf : notificationOf env b e = some nf) (hnot : ¬ b.HasClient nf.dst) {d : Frame}
    (hmaps : b.Maps nf.dst d) : ∃ b', step env b e = .done b' [.rsock d nf.down] := by
  obtain ⟨b₁, srcpublic, dstpublic, nodst, hr⟩ := routes_notification hinj hok hnf
  have hok₁ := hr.tables.tablesOk hok
  rw [← HasClient.congr hr.tables.lclCliHt] at hnot
  rw [← Maps.congr hr.tables.distCliHt] at hmaps
  obtain ⟨dn, hdist, rfl⟩ := (hok₁.maps_iff hinj).mp hmaps
  refine ⟨b₁, hr.step.trans ?_⟩
  rw [carry, (hok₁.hasRev_eq_none hinj).mpr hnot, hdist]
  rfl

/-- **A notification for a name that a registered broker does not have** goes up. -/
theorem forward_of_missing (hinj : Function.Injective env.xxh32) (hok : TablesOk env b)
    (hnf : notificationOf env b e = some nf) (hnot : ¬ b.Has nf.dst)
    (hstate : b.state = .registered) :
    ∃ b', step env b e = .done b' [.dsock (nf.up b.keys.cookie.1)] := by
  obtain ⟨b₁, srcpublic, dstpublic, nodst, hr⟩ := routes_notification hinj hok hnf
  have hok₁ := hr.tables.tablesOk hok
  have hstate₁ : b₁.state = .registered := hr.state.trans hstate
  have hmissing : missing env b₁ nf.dst := by
    rw [missing, Bool.and_eq_true, Option.isNone_iff_eq_none, Option.isNone_iff_eq_none]
    refine ⟨(hok₁.hasRev_eq_none hinj).mpr fun hc => hnot (Or.inl ?_), ?_⟩
    · rwa [← HasClient.congr hr.tables.lclCliHt]
    · cases hdist : hashtableHasDistNode env b₁ nf.dst with
      | none => rfl
      | some dn =>
        have hmaps := (hok₁.maps_iff hinj).mpr ⟨dn, hdist, rfl⟩
        rw [Maps.congr hr.tables.distCliHt] at hmaps
        exact absurd (Or.inr ⟨_, hmaps⟩) hnot
  refine ⟨b₁, hr.step.trans ?_⟩
  rw [carry_missing hmissing, if_neg (by rw [hstate₁]; decide), forwardUp, if_pos hstate₁,
    hr.tables.keys]
  rfl

end

/-! ## Messages between brokers -/

/-- Whether a message is a `FORWARD`. -/
def isForward (m : List Frame) : Bool := (dealerCmd m).any fun p => decide (p.1 = .forward)

theorem isForward_iff {m : List Frame} :
    isForward m ↔ ∃ rest, dealerCmd m = some (.forward, rest) := by
  unfold isForward
  cases hm : dealerCmd m with
  | none => simp
  | some p =>
    obtain ⟨cmd, rest⟩ := p
    simp [eq_comm]

@[simp] theorem isForward_down (nf : Notification) : isForward nf.down := by
  simp [isForward, Notification.down]

@[simp] theorem isForward_up (cookie : Frame) (nf : Notification) : isForward (nf.up cookie) := by
  simp [isForward, Notification.up]

/-- The other direction of a link. -/
def Spot.back : Spot ι → Spot ι
  | .up i => .down i
  | .down i => .up i
  | .out i d => .out i d

variable [DecidableEq ι] [DecidableEq H] {env : Env H} {t : BrokerTree ι}
  {n n' : Fifo ι (Spot ι) (DdBroker H) (List Frame)}

variable (env t) in
/-- **A `FORWARD` is sent back** over the link it arrives on. -/
def sendsBack (n : Fifo ι (Spot ι) (DdBroker H) (List Frame)) :
    FifoEvent ι (Spot ι) Event → Bool
  | .outside _ _ => false
  | .move q =>
    match n.queue q with
    | [] => false
    | (m, _) :: _ =>
      match t.arrive q m with
      | none => false
      | some (i, e) => isForward m && (n.answers (t.system env) i e).any fun x =>
        decide (x.1 = q.back) && isForward x.2

variable (t) in
/-- **There is another way on** for a notification that arrives: one from a lower broker is not for
a name that is behind that broker, and one from above is for a name that the broker has. -/
def Onward (b : DdBroker H) (name : CStr) : Spot ι → Prop
  | .up j => b.Maps name (t.sockid j) → b.HasClient name
  | .down _ => b.state = .registered → b.Has name
  | .out _ _ => True

instance (b : DdBroker H) (name : CStr) : ∀ q, Decidable (Onward t b name q)
  | .up j => inferInstanceAs (Decidable (b.Maps name (t.sockid j) → b.HasClient name))
  | .down _ => inferInstanceAs (Decidable (b.state = .registered → b.Has name))
  | .out _ _ => isTrue trivial

variable (env t) in
/-- **A `FORWARD` that arrives has another way on.** -/
def Straight (n : Fifo ι (Spot ι) (DdBroker H) (List Frame)) :
    FifoEvent ι (Spot ι) Event → Prop
  | .outside _ _ => True
  | .move q => ∀ p ∈ n.next (t.system env) (.move q), ∀ nf ∈ forwardOf env (n.state p.1) p.2,
    Onward t (n.state p.1) nf.dst q

instance (n : Fifo ι (Spot ι) (DdBroker H) (List Frame)) :
    ∀ e, Decidable (Straight env t n e)
  | .outside _ _ => isTrue trivial
  | .move q => inferInstanceAs (Decidable (∀ p ∈ n.next (t.system env) (.move q),
    ∀ nf ∈ forwardOf env (n.state p.1) p.2, Onward t (n.state p.1) nf.dst q))

/-! ## A step on a link -/

section

variable {b b' : DdBroker H} {q : Spot ι} {m : List Frame} {i : ι} {e : Event} {sends : List Send}
  {nf : Notification}

omit [DecidableEq ι] in
/-- A message that brings a `FORWARD` is one. -/
theorem isForward_of_forwardOf (harr : t.arrive q m = some (i, e))
    (h : forwardOf env b e = some nf) : isForward m := by
  cases q with
  | up j =>
    obtain ⟨p, -, hp⟩ := Option.map_eq_some_iff.mp harr
    cases hp
    rw [forwardOf, routerCmd_cons] at h
    rw [isForward_iff]
    cases hm : dealerCmd m with
    | none => simp [hm] at h
    | some p =>
      obtain ⟨cmd, rest⟩ := p
      rw [hm] at h
      cases cmd with
      | forward => exact ⟨rest, rfl⟩
      | send | ping | addlcl | adddcl | addbr | unreg | unregdcli | unregbr | data | error | regok
      | pong | chall | challok | pub | sub | unsub | subok => cases h
  | down j =>
    cases harr
    rw [forwardOf] at h
    split at h
    · next hm => exact isForward_iff.mpr ⟨_, hm⟩
    · cases h
  | out j d => cases harr

omit [DecidableEq ι] in
/-- What a `FORWARD` brings. -/
theorem notificationOf_eq (harr : t.arrive q m = some (i, e)) (hm : isForward m) :
    notificationOf env b e = forwardOf env b e := by
  obtain ⟨rest, hm⟩ := isForward_iff.mp hm
  cases q with
  | up j =>
    obtain ⟨p, -, hp⟩ := Option.map_eq_some_iff.mp harr
    cases hp
    have hsend : sendOf env b (.router (t.sockid j :: m)) = none := by
      rw [sendOf, routerCmd_cons, hm]
      rfl
    rw [notificationOf, hsend]
    rfl
  | down j =>
    cases harr
    rfl
  | out j d => cases harr

omit [DecidableEq ι] [DecidableEq H] in
/-- A message in a queue has the command it was sent with. -/
theorem cmd_of_spot {x : Send} {cmd : Cmd} {rest : List Frame} (h : t.spot i x = some (q, m))
    (hm : dealerCmd m = some (cmd, rest)) : x.cmd = some cmd := by
  cases x with
  | dsock =>
    cases h
    exact (cmd_of_dealerCmd hm []).2
  | rsock d =>
    rw [spot] at h
    split at h
    · cases h
      exact (cmd_of_dealerCmd hm d).1
    · cases h
      exact (cmd_of_dealerCmd hm d).1
  | pubN | pubS | subN | subS => cases h

omit [DecidableEq ι] in
/-- **A `FORWARD` goes back** when there is no other way on. -/
theorem exists_back_iff (hinj : Function.Injective env.xxh32) (hok : TablesOk env b)
    (harr : t.arrive q m = some (i, e)) :
    (isForward m ∧ ∃ b' sends m', step env b e = .done b' sends ∧
      (q.back, m') ∈ sends.filterMap (t.spot i) ∧ isForward m') ↔
    ∃ nf, forwardOf env b e = some nf ∧ ¬ Onward t b nf.dst q := by
  constructor
  · rintro ⟨hm, b', sends, m', hs, hmem, hm'⟩
    obtain ⟨x, hx, hspot⟩ := List.mem_filterMap.mp hmem
    obtain ⟨rest', hm'⟩ := isForward_iff.mp hm'
    obtain ⟨nf, hnf, hnot, -, hway⟩ := forward_cases hinj hok hs hx (cmd_of_spot hspot hm')
    refine ⟨nf, (notificationOf_eq harr hm).symm.trans hnf, fun honward => ?_⟩
    obtain ⟨d, hmaps, rfl⟩ | ⟨hhas, hstate, rfl⟩ := hway
    · cases q with
      | up j =>
        -- the socket id is that of the broker it came from
        rw [spot] at hspot
        split at hspot
        · next k hk =>
          cases hspot
          obtain ⟨-, rfl⟩ := t.child_eq_some.mp hk
          exact hnot (honward hmaps)
        · cases hspot
      | down j =>
        rw [spot] at hspot
        split at hspot <;> cases hspot
      | out j d => cases harr
    · cases q with
      | up j => cases hspot
      | down j => exact hhas (honward hstate)
      | out j d => cases harr
  · rintro ⟨nf, hnf, hback⟩
    have hm := isForward_of_forwardOf harr hnf
    have hnf' := (notificationOf_eq harr hm).trans hnf
    refine ⟨hm, ?_⟩
    cases q with
    | up j =>
      obtain ⟨hmaps, hnot⟩ := Classical.not_imp.mp hback
      obtain ⟨p, hp, heq⟩ := Option.map_eq_some_iff.mp harr
      cases heq
      obtain ⟨b', hs⟩ := forward_of_maps hinj hok hnf' hnot hmaps
      refine ⟨b', _, nf.down, hs, ?_, isForward_down nf⟩
      simp [spot, t.child_sockid hp, Spot.back]
    | down j =>
      obtain ⟨hstate, hnot⟩ := Classical.not_imp.mp hback
      cases harr
      obtain ⟨b', hs⟩ := forward_of_missing hinj hok hnf' hnot hstate
      refine ⟨b', _, nf.up b.keys.cookie.1, hs, ?_, isForward_up _ nf⟩
      simp [spot, Spot.back]
    | out j d => cases harr

end

omit [DecidableEq ι] in
/-- What a broker of the tree answers. -/
theorem mem_answers {i : ι} {e : Event} {x : Spot ι × List Frame} :
    x ∈ n.answers (t.system env) i e ↔ ∃ b' sends,
      DoubleDecker.step env (n.state i) e = .done b' sends ∧ x ∈ sends.filterMap (t.spot i) := by
  simp only [Fifo.answers, system]
  cases DoubleDecker.step env (n.state i) e with
  | done b' sends => simp
  | fault => simp

/-- **A step sends a `FORWARD` back just when it is not straight.** -/
theorem sendsBack_iff (hinj : Function.Injective env.xxh32)
    (hok : ∀ i, TablesOk env (n.state i)) (e : FifoEvent ι (Spot ι) Event) :
    sendsBack env t n e ↔ ¬ Straight env t n e := by
  cases e with
  | outside i e => simp [sendsBack, Straight]
  | move q =>
    rw [sendsBack, Straight, Fifo.next]
    rcases n.queue q with _ | ⟨⟨m, mark⟩, rest⟩
    · simp
    · simp only
      cases harr : t.arrive q m with
      | none =>
        rw [show (t.system env).arrive q m = none from harr]
        simp
      | some p =>
        obtain ⟨i, e⟩ := p
        have hback := exists_back_iff hinj (hok i) harr
        rw [show (t.system env).arrive q m = some (i, e) from harr]
        simp only [Bool.and_eq_true, List.any_eq_true, decide_eq_true_eq, Option.mem_def,
          Option.some.injEq, forall_eq', mem_answers, not_forall]
        refine Iff.trans (and_congr_right fun _ => ?_) (hback.trans ?_)
        · constructor
          · rintro ⟨⟨q', m'⟩, ⟨b', sends, hs, hmem⟩, rfl, hm'⟩
            exact ⟨b', sends, m', hs, hmem, hm'⟩
          · rintro ⟨b', sends, m', hs, hmem, hm'⟩
            exact ⟨_, ⟨b', sends, hs, hmem⟩, rfl, hm'⟩
        · simp only [exists_prop]

/-! ## How far a `FORWARD` goes -/

variable (t) in
/-- A `FORWARD` on a link of the tree. -/
def BrokerTree.travels (q : Spot ι) (m : List Frame) : Bool := (t.arrive q m).isSome && isForward m

variable (t) in
/-- How many more may follow a `FORWARD` in a queue, in a tree of this height. -/
def BrokerTree.room (height : ℕ) : Spot ι → ℕ
  | .up i => height + t.depth i - 1
  | .down i => height - t.depth i
  | .out _ _ => 0

/-- No client's `SEND` is among the marked messages. -/
def NoSends (n : Fifo ι (Spot ι) (DdBroker H) (List Frame)) : Prop :=
  ∀ q, ∀ m ∈ n.marks q, ∀ rest, dealerCmd m ≠ some (.send, rest)

omit [DecidableEq ι] [DecidableEq H] in
theorem send_not_mem_answers (e : Event) : Cmd.send ∉ e.answers := by
  have hcmd : ∀ cmd : Cmd, Cmd.send ∉ cmd.answers ∧ Cmd.send ∉ cmd.dealerAnswers := by
    intro cmd
    cases cmd <;> decide
  cases e with
  | router msg =>
    rw [Event.answers]
    cases routerCmd msg with
    | none => decide
    | some p => simpa using (hcmd p.2.1).1
  | dealer msg =>
    rw [Event.answers]
    cases dealerCmd msg with
    | none => decide
    | some p => simpa using (hcmd p.1).2
  | subN | subS | pubN | pubS | register | heartbeat | checkCliTimeout | checkBrTimeout =>
    simp [Event.answers]

section

variable {b b' : DdBroker H} {q : Spot ι} {m : List Frame} {i : ι} {e : Event} {sends : List Send}
  {height bound : ℕ}

omit [DecidableEq ι] in
/-- Brokers do not `SEND`. -/
theorem no_send (h : step env b e = .done b' sends) (hmem : (q, m) ∈ sends.filterMap (t.spot i))
    (rest : List Frame) : dealerCmd m ≠ some (.send, rest) := fun hm => by
  obtain ⟨x, hx, hspot⟩ := List.mem_filterMap.mp hmem
  have hx' : x ∈ (step env b e).sends := by rwa [h]
  exact send_not_mem_answers e (says_step b e x hx' _ (cmd_of_spot hspot hm))

omit [DecidableEq ι] in
/-- **What an event leads to** — one `FORWARD` at most on a link, down, or up when the broker does
not have the name. -/
theorem below_of_step (hinj : Function.Injective env.xxh32) (hok : TablesOk env b)
    (h : step env b e = .done b' sends)
    (hdown : ∀ k nf, notificationOf env b e = some nf → t.parent k = some i →
      t.room height (.down k) < bound)
    (hup : ∀ p nf, notificationOf env b e = some nf → ¬ b.Has nf.dst → b.state = .registered →
      t.parent i = some p → t.room height (.up i) < bound) :
    Fifo.Below (t.room height) bound (Fifo.ofKind t.travels (sends.filterMap (t.spot i))) := by
  rcases hof : Fifo.ofKind t.travels (sends.filterMap (t.spot i)) with _ | ⟨⟨q, m⟩, tail⟩
  · exact Or.inl rfl
  · refine Or.inr ⟨q, m, ?_⟩
    have hmem : (q, m) ∈ Fifo.ofKind t.travels (sends.filterMap (t.spot i)) :=
      hof ▸ List.mem_cons_self
    rw [Fifo.ofKind, List.mem_filter, travels, Bool.and_eq_true] at hmem
    obtain ⟨hmem, hsome, hm⟩ := hmem
    obtain ⟨rest, hm'⟩ := isForward_iff.mp hm
    obtain ⟨x, hx, hspot⟩ := List.mem_filterMap.mp hmem
    obtain ⟨nf, hnf, -, rfl, hway⟩ := forward_cases hinj hok h hx (cmd_of_spot hspot hm')
    have hone : [x].filterMap (t.spot i) = [(q, m)] := by rw [List.filterMap_cons, hspot]; rfl
    rw [hone, Fifo.ofKind, List.filter_singleton] at hof
    constructor
    · rw [← hof, travels, hsome, hm]
      rfl
    · obtain ⟨d, -, rfl⟩ | ⟨hhas, hstate, rfl⟩ := hway
      · rw [spot] at hspot
        split at hspot
        · next k hk =>
          cases hspot
          exact hdown k nf hnf (t.child_eq_some.mp hk).1
        · cases hspot
          cases hsome
      · cases hspot
        rw [arrive, Option.isSome_map] at hsome
        obtain ⟨p, hp⟩ := Option.isSome_iff_exists.mp hsome
        exact hup p nf hnf hhas hstate hp

end

omit [DecidableEq ι] in
/-- What brings a notification over a link is a `FORWARD`, or a `SEND`. -/
theorem forward_or_send {b : DdBroker H} {q : Spot ι} {m : List Frame} {i : ι} {e : Event}
    {nf : Notification} (harr : t.arrive q m = some (i, e)) (h : notificationOf env b e = some nf) :
    isForward m ∨ ∃ rest, dealerCmd m = some (.send, rest) := by
  obtain hsend | ⟨-, hforward⟩ := Option.or_eq_some_iff.mp h
  · obtain ⟨p, hsend, -⟩ := Option.map_eq_some_iff.mp hsend
    cases q with
    | up j =>
      obtain ⟨_, -, heq⟩ := Option.map_eq_some_iff.mp harr
      cases heq
      rw [sendOf, routerCmd_cons] at hsend
      cases hm : dealerCmd m with
      | none => simp [hm] at hsend
      | some p =>
        obtain ⟨cmd, rest⟩ := p
        rw [hm] at hsend
        cases cmd with
        | send => exact Or.inr ⟨rest, rfl⟩
        | forward | ping | addlcl | adddcl | addbr | unreg | unregdcli | unregbr | data | error
        | regok | pong | chall | challok | pub | sub | unsub | subok => cases hsend
    | down j =>
      cases harr
      cases hsend
    | out j d => cases harr
  · exact Or.inl (isForward_of_forwardOf harr hforward)

omit [DecidableEq ι] in
/-- **A `FORWARD` that goes straight** is followed by one of less room at most. -/
theorem Straight.descends (hinj : Function.Injective env.xxh32) {height : ℕ}
    (hheight : ∀ i, t.depth i ≤ height) (hok : ∀ i, TablesOk env (n.state i)) (hsends : NoSends n)
    {e : FifoEvent ι (Spot ι) Event} (hstraight : Straight env t n e) :
    Fifo.Descends (t.system env) t.travels (t.room height) n e := by
  rintro q m rest i e' self' msgs rfl hq harr hstep
  obtain ⟨sends, hs, rfl⟩ := system_step_eq_some hstep
  have harr' : t.arrive q m = some (i, e') := harr
  refine below_of_step hinj (hok i) hs (fun k nf hnf hk => ?_) fun p nf hnf hhas hstate hp => ?_
  all_goals
    have hm : isForward m := (forward_or_send harr' hnf).resolve_right fun ⟨rest, hm⟩ =>
      hsends q m (Fifo.mem_marks_of_head hq) rest hm
    have htravels : t.travels q m := by rw [travels, harr', hm]; rfl
    rw [if_pos htravels]
  · have hdepth := t.depth_parent hk
    have hk' := hheight k
    cases q with
    | up j =>
      obtain ⟨p, hp, heq⟩ := Option.map_eq_some_iff.mp harr'
      cases heq
      have hdepth' := t.depth_parent hp
      simp only [room]
      omega
    | down j =>
      cases harr'
      simp only [room]
      omega
    | out j d => cases harr'
  · have hdepth := t.depth_parent hp
    cases q with
    | up j =>
      obtain ⟨p', hp', heq⟩ := Option.map_eq_some_iff.mp harr'
      cases heq
      have hdepth' := t.depth_parent hp'
      simp only [room]
      omega
    | down j =>
      -- one from above does not go up again
      have hnf' := (notificationOf_eq harr' hm).symm.trans hnf
      cases harr'
      have hnext : n.next (t.system env) (.move (.down i)) = some (i, .dealer m) := by
        rw [Fifo.next, hq]
        exact harr
      exact absurd (hstraight _ hnext nf hnf' hstate) hhas
    | out j d => cases harr'

/-- The tables of the brokers stay in order, and no `SEND` is among the marked messages. -/
theorem noSends_act (hinj : Function.Injective env.xxh32)
    (h : (∀ i, TablesOk env (n.state i)) ∧ NoSends n) {e : FifoEvent ι (Spot ι) Event}
    (hact : n.act (t.system env) e = some n') :
    (∀ i, TablesOk env (n'.state i)) ∧ NoSends n' := by
  refine ⟨Fifo.state_act (fun _ => TablesOk env) (system_tablesOk hinj) h.1 hact, fun q m hm => ?_⟩
  obtain ⟨-, hmarks⟩ | ⟨q₀, m₀, rest, i, e', self', msgs, rfl, hq₀, -, hstep, hmarks⟩ :=
    Fifo.marks_act hact
  · rw [hmarks] at hm
    exact h.2 q m hm
  · rw [hmarks, List.mem_append] at hm
    obtain hm | hm := hm
    · refine h.2 q m ?_
      split at hm
      · next hq =>
        subst hq
        rw [Fifo.marks, hq₀, List.filter_cons_of_pos rfl]
        exact List.mem_cons_of_mem _ hm
      · exact hm
    · obtain ⟨sends, hs, rfl⟩ := system_step_eq_some hstep
      exact no_send hs (Fifo.mem_sentTo.mp hm)

/-- **Where no two names meet** no `FORWARD` is sent down again: it asks for a name that its broker
does not have, and meets no mapping of that name to the broker. -/
theorem Tracked.not_sendsBack_up (hinj : Function.Injective env.xxh32) (h : Tracked env t n)
    {j p : ι}
    (hp : t.parent j = some p) : sendsBack env t n (.move (.up j)) = false := by
  rw [← Bool.not_eq_true, sendsBack_iff hinj h.tables, not_not]
  intro x hx nf hnf hmaps
  rw [Fifo.next] at hx
  rcases hq : n.queue (.up j) with _ | ⟨⟨m, mark⟩, rest⟩
  · rw [hq] at hx
    cases hx
  · rw [hq] at hx
    have harr : t.arrive (.up j) m = some x := hx
    rw [arrive, hp] at harr
    cases harr
    have hwaiting : n.waiting (.up j) = m :: rest.map Prod.fst := by rw [Fifo.waiting, hq]; rfl
    have hup := h.ups hp m (hwaiting ▸ List.mem_cons_self)
    have hmirror := h.mirror hp nf.dst
    rw [noticesUp, hwaiting, List.filterMap_cons] at hmirror
    cases hup with
    | forward src dst payload =>
      simp only [forwardOf, routerCmd_ddMsg, Option.mem_def, Option.ite_none_right_eq_some,
        Option.some.injEq] at hnf
      obtain ⟨-, rfl⟩ := hnf
      simp only [CStr.ofBytes_bytes] at hmaps hmirror
      rw [noticeFor_forward, if_pos rfl] at hmirror
      exact absurd hmaps hmirror.of_ask
    | adddcl | unregdcli | ping => simp [forwardOf] at hnf

/-! ## Runs -/

variable (env t) in
/-- How many `FORWARD`s on links an event leads to in a run: those that the broker sends, and those
that are sent in answer to them. -/
def caused (n : Fifo ι (Spot ι) (DdBroker H) (List Frame)) (o : ι) (e : Event)
    (es : List (FifoEvent ι (Spot ι) Event)) : ℕ :=
  match n.handle (t.system env) o e true with
  | some n₀ => (Fifo.ofKind t.travels (n.answers (t.system env) o e)).length +
    n₀.sent (t.system env) t.travels es
  | none => 0

/-- **No `FORWARD` is sent back just when all go straight.** -/
theorem meets_straight_iff (hinj : Function.Injective env.xxh32)
    (hok : ∀ i, TablesOk env (n.state i))
    (es : List (FifoEvent ι (Spot ι) Event)) :
    n.meets (t.system env) (fun n e => sendsBack env t n e = false) es ↔
      n.meets (t.system env) (Straight env t) es := by
  induction es generalizing n with
  | nil => exact Iff.rfl
  | cons e es ih =>
    have hhead : sendsBack env t n e = false ↔ Straight env t n e := by
      rw [← Bool.not_eq_true, sendsBack_iff hinj hok, not_not]
    refine and_congr hhead (forall₂_congr fun n' hn' => ih ?_)
    exact Fifo.state_act (fun _ => TablesOk env) (system_tablesOk hinj) hok hn'

/-- **Notifications do not loop when they go straight** — no `FORWARD` is sent back over the link it
came from, and whatever event is handled at a broker, a `SEND` say, no more of them stem from it
than twice the height of the tree. -/
theorem forwards_straight (hinj : Function.Injective env.xxh32) {cfg : ι → Config} {height : ℕ}
    (hheight : ∀ i, t.depth i ≤ height) (hreach : ∀ i, Reachable env (cfg i) (n.state i)) :
    (∀ es, n.meets (t.system env) (fun n e => sendsBack env t n e = false) es ↔
      n.meets (t.system env) (Straight env t) es) ∧
    ∀ o e n₀ es, n.Clear → n.handle (t.system env) o e true = some n₀ →
      n₀.meets (t.system env) (Straight env t) es → caused env t n o e es ≤ 2 * height := by
  have hok : ∀ i, TablesOk env (n.state i) := fun i => (hreach i).tablesOk hinj
  refine ⟨meets_straight_iff hinj hok, fun o e n₀ es hclear hhandle hmeets => ?_⟩
  obtain ⟨self', msgs, hstep, hn₀⟩ := Fifo.handle_eq_some hhandle
  obtain ⟨_, _, hstep', hmarks⟩ := Fifo.marks_handle hhandle
  cases hstep.symm.trans hstep'
  obtain ⟨sends, hs, rfl⟩ := system_step_eq_some hstep
  have hok₀ : ∀ i, TablesOk env (n₀.state i) := by
    intro i
    rw [hn₀]
    by_cases hi : i = o
    · subst hi
      simpa using (hok i).step hinj hs
    · simpa [hi] using hok i
  have hsends₀ : NoSends n₀ := by
    intro q m hm
    rw [hmarks, hclear, List.nil_append, if_pos rfl] at hm
    exact no_send hs (Fifo.mem_sentTo.mp hm)
  rw [caused, hhandle]
  have hbelow : Fifo.Below (t.room height) (2 * height)
      (Fifo.ofKind t.travels (n.answers (t.system env) o e)) := by
    have hanswers : n.answers (t.system env) o e = sends.filterMap (t.spot o) := by
      simp only [Fifo.answers, hstep]
    rw [hanswers]
    refine below_of_step hinj (hok o) hs (fun k _ _ hk => ?_) fun p _ _ _ _ hp => ?_
    · have hdepth := t.depth_parent hk
      have hk' := hheight k
      simp only [room]
      omega
    · have hdepth := t.depth_parent hp
      have ho := hheight o
      simp only [room]
      omega
  exact Fifo.sent_le (t.room height) (fun n => (∀ i, TablesOk env (n.state i)) ∧ NoSends n)
    (fun _ _ _ hn _ hact => noSends_act hinj hn hact)
    (fun _ _ hn hstraight => hstraight.descends hinj hheight hn.1 hn.2) hclear hhandle
    ⟨hok₀, hsends₀⟩ hbelow hmeets

/-! ### Two brokers and a notification -/

/-- The lower broker's client asks for that of the root. -/
theorem pairRun_straight : (pairRun rootRunD (CStr.ascii "d") upOnce).map (fun r =>
    (decide (r.2.2.1.meets (pairTree.system plainEnv) (Straight plainEnv pairTree) upOnce) &&
      decide ((pairNet r.1 r.2.1).meets (pairTree.system plainEnv) (Straight plainEnv pairTree)
        (.outside true (ask (CStr.ascii "d")) :: upOnce)),
      caused plainEnv pairTree (pairNet r.1 r.2.1) true (ask (CStr.ascii "d")) upOnce)) =
    some (true, 1) := by
  decide

theorem forwards_straight_d : ∃ lower root : DdBroker (List UInt8),
    (pairRun rootRunD (CStr.ascii "d") upOnce).map (fun r => (r.1, r.2.1)) = some (lower, root) ∧
    (pairNet lower root).meets (pairTree.system plainEnv)
      (fun n e => sendsBack plainEnv pairTree n e = false)
      (.outside true (ask (CStr.ascii "d")) :: upOnce) ∧
    caused plainEnv pairTree (pairNet lower root) true (ask (CStr.ascii "d")) upOnce = 1 ∧
    caused plainEnv pairTree (pairNet lower root) true (ask (CStr.ascii "d")) upOnce ≤ 2 * 1 := by
  obtain ⟨⟨lower, root, n, n'⟩, hasked, hfacts⟩ := Option.map_eq_some_iff.mp pairRun_straight
  obtain ⟨hreach, hsend, -⟩ := of_pairRun hasked
  simp only [Prod.mk.injEq, Bool.and_eq_true, decide_eq_true_eq] at hfacts
  obtain ⟨⟨hmeets, hwhole⟩, hone⟩ := hfacts
  obtain ⟨hback, hbound⟩ := @forwards_straight Bool _ _ _ plainEnv pairTree (pairNet lower root)
    Function.injective_id pairConfig 1 (by decide) hreach
  refine ⟨lower, root, by rw [hasked]; rfl, (hback _).mpr hwhole, hone, ?_⟩
  exact hbound true (ask (CStr.ascii "d")) n upOnce (fun _ => rfl) hsend hmeets

/-- The root maps `a.x` to the lower broker, where nobody has it, and has a client `a.d`. -/
def staleName : List (FifoEvent Bool (Spot Bool) Event) :=
  refusedLate ++ [.outside false (.router (challokMsg [3] (cookieOf 65) (text "hashA") (text "d")))]

/-- The client asks for `a.x`. -/
def asksFor : List Frame := [3] :: ddMsg .send [(cookieOf 65).1, CStr.ascii "x", [7]]

/-- The `FORWARD` goes down, and up again. -/
def toAndFro : List (FifoEvent Bool (Spot Bool) Event) := [.move (.down true), .move (.up true)]

theorem toAndFro_facts : (linkedPair.bind fun r =>
    ((pairNet r.1 r.2).run (pairTree.system plainEnv) staleName).map fun n₁ =>
      (decide ((pairNet r.1 r.2).meets (pairTree.system plainEnv) (KeepsLinks plainEnv pairTree)
        (staleName ++ .outside false (.router asksFor) :: toAndFro)),
        decide ((pairNet r.1 r.2).meets (pairTree.system plainEnv) (Straight plainEnv pairTree)
          (staleName ++ .outside false (.router asksFor) :: toAndFro)),
        caused plainEnv pairTree n₁ false (.router asksFor) toAndFro)) = some (true, false, 3) := by
  decide

/-- **Notifications loop** — when the root maps a name to a lower broker that does not have it, a
`FORWARD` for that name goes down and comes up again, and goes down again. -/
theorem not_forwards_straight : ¬ ∀ (ι H : Type) [DecidableEq ι] [DecidableEq H] (env : Env H)
    (t : BrokerTree ι) (cfg : ι → Config) (height : ℕ)
    (n n₁ : Fifo ι (Spot ι) (DdBroker H) (List Frame)) (es es' : List (FifoEvent ι (Spot ι) Event))
    (o : ι) (s : Frame) (msg rest : List Frame),
    Function.Injective env.xxh32 → (∀ i, t.depth i ≤ height) →
    (∀ i, Reachable env (cfg i) (n.state i)) → t.Linked env n.state →
    (∀ p, ∀ br ∈ (n.state p).lclBrHt.nodes, (t.child p br.sockid).isSome) → t.Exact n.state →
    (∀ q, n.queue q = []) → routerCmd msg = some (s, .send, rest) →
    n.meets (t.system env) (KeepsLinks env t) (es ++ .outside o (.router msg) :: es') →
    n.run (t.system env) es = some n₁ →
    n.meets (t.system env) (fun n e => sendsBack env t n e = false)
      (es ++ .outside o (.router msg) :: es') ∧
    caused env t n₁ o (.router msg) es' ≤ 2 * height := by
  intro h
  obtain ⟨⟨lower, root⟩, hpair, hrun⟩ := Option.bind_eq_some_iff.mp toAndFro_facts
  obtain ⟨n₁, hrun, hfacts⟩ := Option.map_eq_some_iff.mp hrun
  simp only [Prod.mk.injEq, decide_eq_true_eq, decide_eq_false_iff_not] at hfacts
  obtain ⟨hkeeps, -, hthree⟩ := hfacts
  obtain ⟨hreach, hlinks, hsealed, hexact⟩ := linkedPair_start hpair
  obtain ⟨-, hle⟩ := h Bool _ plainEnv pairTree pairConfig 1 _ n₁ staleName toAndFro false
    [3] asksFor _ Function.injective_id (by decide) hreach hlinks hsealed hexact (fun _ => rfl)
    (routerCmd_ddMsg _ _ _) hkeeps hrun
  rw [hthree] at hle
  exact absurd hle (by decide)

end DoubleDecker
