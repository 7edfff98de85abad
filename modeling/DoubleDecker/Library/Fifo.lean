import Mathlib.Data.List.Basic
import Mathlib.Logic.Function.Basic

/-!
# Library/Fifo — nodes joined by queues, and one message that is followed

Nodes handle events one at a time; what a node sends goes to the ends of queues, and the head of a
queue is an event for the node the queue leads to.  Messages carry a mark, which a node passes on to
what it sends: `Holds` says that one message in the system is marked, and where it is.
`Holds.run`: what every handling of the marked message keeps, every run keeps.
-/

namespace DoubleDecker

variable {ι σ S M E : Type} [DecidableEq ι] [DecidableEq σ]

/-! ## Systems -/

/-- The nodes `ι`, the queues `σ`, and what a node in a state `S` does with an event `E`. -/
structure FifoSystem (ι σ S M E : Type) where
  /-- The node a queue leads to, and the event its head is there. -/
  arrive : σ → M → Option (ι × E)
  /-- The new state, and the messages sent, each with its queue. -/
  step : ι → S → E → Option (S × List (σ × M))
  /-- The events that come from outside. -/
  outside : ι → S → E → Bool

/-- The states of the nodes and the messages on their way, each with its mark. -/
structure Fifo (ι σ S M : Type) where
  state : ι → S
  queue : σ → List (M × Bool)

/-- What happens next: a node handles an event from outside, or the head of a queue. -/
inductive FifoEvent (ι σ E : Type) where
  | outside (i : ι) (e : E)
  | move (q : σ)

namespace Fifo

variable (sys : FifoSystem ι σ S M E) (n : Fifo ι σ S M)

/-- A node handles an event; the mark goes over to what it sends. -/
def handle (i : ι) (e : E) (mark : Bool) : Option (Fifo ι σ S M) :=
  (sys.step i (n.state i) e).map fun r =>
    { state := Function.update n.state i r.1
      queue := fun q => n.queue q ++ (r.2.filter fun x => x.1 = q).map fun x => (x.2, mark) }

/-- What an event does. -/
def act : FifoEvent ι σ E → Option (Fifo ι σ S M)
  | .outside i e => if sys.outside i (n.state i) e then n.handle sys i e false else none
  | .move q =>
    match n.queue q with
    | [] => none
    | (m, mark) :: rest =>
      match sys.arrive q m with
      | none => none
      | some (i, e) => { n with queue := Function.update n.queue q rest }.handle sys i e mark

/-- The system after some events, the first one first. -/
def run (n : Fifo ι σ S M) : List (FifoEvent ι σ E) → Option (Fifo ι σ S M)
  | [] => some n
  | e :: es => (n.act sys e).bind fun n => n.run es

/-- A condition is met at every step. -/
def meets (cond : Fifo ι σ S M → FifoEvent ι σ E → Prop) (n : Fifo ι σ S M) :
    List (FifoEvent ι σ E) → Prop
  | [] => True
  | e :: es => cond n e ∧ ∀ n' ∈ n.act sys e, n'.meets cond es

/-- Whether an event is the arrival of a marked message. -/
def isHop : FifoEvent ι σ E → Bool
  | .outside _ _ => false
  | .move q =>
    match n.queue q with
    | (_, true) :: _ => true
    | _ => false

/-- How often a marked message arrived. -/
def hops (n : Fifo ι σ S M) : List (FifoEvent ι σ E) → Nat
  | [] => 0
  | e :: es => (if n.isHop e then 1 else 0) +
    match n.act sys e with
    | some n' => n'.hops es
    | none => 0

/-- A condition on the arrival of the marked message: on the node, its state and the event. -/
def onMarked (cond : ι → S → E → Bool) : FifoEvent ι σ E → Bool
  | .outside _ _ => true
  | .move q =>
    match n.queue q with
    | (m, true) :: _ => (sys.arrive q m).all fun p => cond p.1 (n.state p.1) p.2
    | _ => true

/-- The marked messages of a queue. -/
def marks (q : σ) : List M := ((n.queue q).filter Prod.snd).map Prod.fst

/-- The messages of a queue, whatever their marks. -/
def waiting (q : σ) : List M := (n.queue q).map Prod.fst

/-- What goes into a queue. -/
def sentTo (q : σ) (msgs : List (σ × M)) : List M := (msgs.filter fun x => x.1 = q).map Prod.snd

/-- The node that handles what happens next, and the event there. -/
def next : FifoEvent ι σ E → Option (ι × E)
  | .outside i e => some (i, e)
  | .move q =>
    match n.queue q with
    | [] => none
    | (m, _) :: _ => sys.arrive q m

/-- No message is marked. -/
def Clear (n : Fifo ι σ S M) : Prop := ∀ q, n.marks q = []

/-- **One message is marked**, and it is in this queue. -/
def Holds (n : Fifo ι σ S M) (q : σ) (m : M) : Prop :=
  ∀ q', n.marks q' = if q' = q then [m] else []

instance decidableMeets (cond : Fifo ι σ S M → FifoEvent ι σ E → Prop)
    [∀ n e, Decidable (cond n e)] : ∀ (n : Fifo ι σ S M) es, Decidable (n.meets sys cond es)
  | _, [] => isTrue trivial
  | n, e :: es =>
    have : ∀ n' : Fifo ι σ S M, Decidable (n'.meets sys cond es) :=
      fun n' => decidableMeets cond n' es
    inferInstanceAs (Decidable (cond n e ∧ ∀ n' ∈ n.act sys e, n'.meets sys cond es))

variable {sys n} {n' : Fifo ι σ S M}

/-! ## One step -/

omit [DecidableEq ι] in
/-- What an event did. -/
theorem handle_eq_some [DecidableEq ι] {i : ι} {e : E} {mark : Bool}
    (h : n.handle sys i e mark = some n') : ∃ s msgs, sys.step i (n.state i) e = some (s, msgs) ∧
      n' = { state := Function.update n.state i s
             queue := fun q =>
               n.queue q ++ (msgs.filter fun x => x.1 = q).map fun x => (x.2, mark) } := by
  obtain ⟨⟨s, msgs⟩, hstep, rfl⟩ := Option.map_eq_some_iff.mp h
  exact ⟨s, msgs, hstep, rfl⟩

omit [DecidableEq ι] in
/-- What waits after an event. -/
theorem waiting_handle [DecidableEq ι] {i : ι} {e : E} {mark : Bool}
    (h : n.handle sys i e mark = some n') : ∃ s msgs, sys.step i (n.state i) e = some (s, msgs) ∧
      n'.state = Function.update n.state i s ∧
      ∀ q, n'.waiting q = n.waiting q ++ sentTo q msgs := by
  obtain ⟨s, msgs, hstep, rfl⟩ := handle_eq_some h
  refine ⟨s, msgs, hstep, rfl, fun q => ?_⟩
  rw [waiting, List.map_append, List.map_map]
  rfl

/-- **One event** — a node handles something from outside, or takes the head of a queue. -/
theorem act_cases {e : FifoEvent ι σ E} (h : n.act sys e = some n') :
    ∃ i e' s msgs, n.next sys e = some (i, e') ∧ sys.step i (n.state i) e' = some (s, msgs) ∧
      n'.state = Function.update n.state i s ∧
      ((e = .outside i e' ∧ sys.outside i (n.state i) e' ∧
        ∀ q, n'.waiting q = n.waiting q ++ sentTo q msgs) ∨
      ∃ q₀ m rest, e = .move q₀ ∧ n.waiting q₀ = m :: rest ∧ sys.arrive q₀ m = some (i, e') ∧
        ∀ q, n'.waiting q = (if q = q₀ then rest else n.waiting q) ++ sentTo q msgs) := by
  cases e with
  | outside i e =>
    simp only [act] at h
    split at h
    · next hout =>
      obtain ⟨s, msgs, hstep, hstate, hwaiting⟩ := waiting_handle h
      exact ⟨i, e, s, msgs, rfl, hstep, hstate, Or.inl ⟨rfl, hout, hwaiting⟩⟩
    · cases h
  | move q₀ =>
    simp only [act] at h
    split at h
    · cases h
    · next m mark rest hq =>
      split at h
      · cases h
      · next i e harr =>
        obtain ⟨s, msgs, hstep, hstate, hwaiting⟩ := waiting_handle h
        refine ⟨i, e, s, msgs, by rw [next, hq]; exact harr, hstep, hstate, Or.inr
          ⟨q₀, m, rest.map Prod.fst, rfl, by rw [waiting, hq]; rfl, harr, fun q => ?_⟩⟩
        rw [hwaiting]
        by_cases hqq : q = q₀
        · simp [waiting, hqq]
        · simp [waiting, hqq]

/-- The marks after an event: those of the messages sent on behalf of a marked one are new. -/
theorem marks_handle {i : ι} {e : E} {mark : Bool} (h : n.handle sys i e mark = some n') :
    ∃ s msgs, sys.step i (n.state i) e = some (s, msgs) ∧ ∀ q, n'.marks q = n.marks q ++
      if mark then sentTo q msgs else [] := by
  obtain ⟨s, msgs, hstep, rfl⟩ := handle_eq_some h
  refine ⟨s, msgs, hstep, fun q => ?_⟩
  cases mark <;> simp [marks, sentTo, List.filter_map, Function.comp_def]

omit [DecidableEq ι] in
theorem sentTo_singleton (q q' : σ) (m : M) : sentTo q' [(q, m)] = if q' = q then [m] else [] := by
  by_cases hq : q' = q
  · simp [sentTo, hq]
  · simp [sentTo, hq, Ne.symm hq]

omit [DecidableEq ι] in
theorem mem_sentTo {q : σ} {m : M} {msgs : List (σ × M)} : m ∈ sentTo q msgs ↔ (q, m) ∈ msgs := by
  simp [sentTo]

/-- **A marked event with one answer** marks that answer. -/
theorem Clear.holds (hclear : n.Clear) {i : ι} {e : E} {s : S} {q : σ} {m : M}
    (hstep : sys.step i (n.state i) e = some (s, [(q, m)]))
    (h : n.handle sys i e true = some n') : n'.Holds q m := by
  obtain ⟨s', msgs, hstep', hmarks⟩ := marks_handle h
  rw [hstep] at hstep'
  cases hstep'
  intro q'
  rw [hmarks, hclear, List.nil_append, if_pos rfl, sentTo_singleton]

/-- **The marks after one event** — they stay, or one of them goes over to what is sent for it. -/
theorem marks_act {e : FifoEvent ι σ E} (h : n.act sys e = some n') :
    (n.isHop e = false ∧ ∀ q, n'.marks q = n.marks q) ∨
    ∃ q₀ m rest i e' s msgs, e = .move q₀ ∧ n.queue q₀ = (m, true) :: rest ∧
      sys.arrive q₀ m = some (i, e') ∧ sys.step i (n.state i) e' = some (s, msgs) ∧
      ∀ q, n'.marks q =
        (if q = q₀ then (rest.filter Prod.snd).map Prod.fst else n.marks q) ++ sentTo q msgs := by
  cases e with
  | outside i e =>
    simp only [act] at h
    split at h
    · obtain ⟨s, msgs, -, hmarks⟩ := marks_handle h
      refine Or.inl ⟨rfl, fun q => ?_⟩
      rw [hmarks, if_neg Bool.false_ne_true, List.append_nil]
    · cases h
  | move q₀ =>
    simp only [act] at h
    split at h
    · cases h
    · next m mark rest hq₀ =>
      split at h
      · cases h
      · next i e harr =>
        obtain ⟨s, msgs, hstep, hmarks⟩ := marks_handle h
        -- what is left in the queues
        have hrest : ∀ q, marks { n with queue := Function.update n.queue q₀ rest } q =
            if q = q₀ then (rest.filter Prod.snd).map Prod.fst else n.marks q := by
          intro q
          by_cases hq : q = q₀
          · simp [marks, hq]
          · simp [marks, hq]
        cases mark with
        | false =>
          refine Or.inl ⟨by rw [isHop, hq₀], fun q => ?_⟩
          rw [hmarks, hrest, if_neg Bool.false_ne_true, List.append_nil]
          split
          · next hq => rw [hq, marks, hq₀]; rfl
          · rfl
        | true =>
          refine Or.inr ⟨q₀, m, rest, i, e, s, msgs, rfl, hq₀, harr, hstep, fun q => ?_⟩
          rw [hmarks, hrest, if_pos rfl]

/-- **The marked message stays where it is, or is handled.** -/
theorem Holds.act {q : σ} {m : M} (h : n.Holds q m) {e : FifoEvent ι σ E}
    (hact : n.act sys e = some n') :
    (n'.Holds q m ∧ n.isHop e = false) ∨ ∃ rest, e = .move q ∧ n.queue q = (m, true) :: rest ∧
      ∃ i e' s msgs, sys.arrive q m = some (i, e') ∧
        sys.step i (n.state i) e' = some (s, msgs) ∧
        ∀ q', n'.marks q' = sentTo q' msgs := by
  obtain ⟨hhop, hmarks⟩ | ⟨q₁, m₁, rest, i, e', s, msgs, rfl, hq₁, harr, hstep, hmarks⟩ :=
    marks_act hact
  · refine Or.inl ⟨fun q' => ?_, hhop⟩
    rw [hmarks, h]
  · have hhead := h q₁
    rw [marks, hq₁, List.filter_cons_of_pos rfl, List.map_cons] at hhead
    have hq : q₁ = q := by
      by_contra hne
      rw [if_neg hne] at hhead
      cases hhead
    subst hq
    rw [if_pos rfl, List.cons.injEq] at hhead
    obtain ⟨rfl, hnil⟩ := hhead
    refine Or.inr ⟨rest, rfl, hq₁, i, e', s, msgs, harr, hstep, fun q' => ?_⟩
    rw [hmarks, hnil]
    split
    · rw [List.nil_append]
    · next hne => rw [h q', if_neg hne, List.nil_append]

omit [DecidableEq ι] in
/-- The marked message is the only one. -/
theorem Holds.eq_of_mem {q q' : σ} {m m' : M} (h : n.Holds q m) (hm : m' ∈ n.marks q') :
    q' = q ∧ m' = m := by
  rw [h] at hm
  split at hm
  · next hq => exact ⟨hq, List.mem_singleton.mp hm⟩
  · cases hm

omit [DecidableEq ι] in
theorem Holds.mem {q : σ} {m : M} (h : n.Holds q m) : m ∈ n.marks q := by
  rw [h, if_pos rfl]
  exact List.mem_singleton_self m

omit [DecidableEq ι] [DecidableEq σ] in
theorem mem_marks_of_head {q : σ} {m : M} {rest : List (M × Bool)}
    (hq : n.queue q = (m, true) :: rest) : m ∈ n.marks q := by
  simp [marks, hq]

omit [DecidableEq ι] in
/-- The head of a queue is handled when the node can handle it. -/
theorem act_move_isSome [DecidableEq ι] {q : σ} {m : M} {mark : Bool} {rest : List (M × Bool)}
    {i : ι} {e : E} {r : S × List (σ × M)} (hq : n.queue q = (m, mark) :: rest)
    (harr : sys.arrive q m = some (i, e)) (hstep : sys.step i (n.state i) e = some r) :
    (n.act sys (.move q)).isSome := by
  simp [act, hq, harr, handle, hstep]

omit [DecidableEq ι] [DecidableEq σ] in
/-- **What every step of a node keeps, the system keeps.** -/
theorem state_act [DecidableEq ι] [DecidableEq σ] (inv : ι → S → Prop)
    (hstep : ∀ i s e s' msgs, inv i s → sys.step i s e = some (s', msgs) → inv i s')
    (h : ∀ i, inv i (n.state i)) {e : FifoEvent ι σ E} (hact : n.act sys e = some n') :
    ∀ i, inv i (n'.state i) := by
  have hhandle : ∀ {n₁ : Fifo ι σ S M} {i e mark}, (∀ i, inv i (n₁.state i)) →
      n₁.handle sys i e mark = some n' → ∀ j, inv j (n'.state j) := by
    intro n₁ i e mark h₁ hn j
    obtain ⟨s, msgs, hs, rfl⟩ := handle_eq_some hn
    by_cases hj : j = i
    · subst hj
      simpa using hstep j _ e s msgs (h₁ j) hs
    · simpa [hj] using h₁ j
  cases e with
  | outside i e =>
    simp only [Fifo.act] at hact
    split at hact
    · exact hhandle h hact
    · cases hact
  | move q =>
    simp only [Fifo.act] at hact
    split at hact
    · cases hact
    · split at hact
      · cases hact
      · refine hhandle ?_ hact
        exact h

omit [DecidableEq ι] [DecidableEq σ] in
/-- A condition on the marked message when it arrives. -/
theorem of_onMarked {cond : ι → S → E → Bool} {q : σ} {m : M} {rest : List (M × Bool)} {i : ι}
    {e : E}
    (hq : n.queue q = (m, true) :: rest) (harr : sys.arrive q m = some (i, e))
    (h : n.onMarked sys cond (.move q)) : cond i (n.state i) e := by
  rw [onMarked, hq] at h
  simpa only [harr, Option.all_some] using h

/-! ## Runs -/

/-- **What every event keeps, every run keeps.** -/
theorem run_induction (inv : Fifo ι σ S M → Prop) (cond : Fifo ι σ S M → FifoEvent ι σ E → Prop)
    (hact : ∀ n e n', inv n → cond n e → n.act sys e = some n' → inv n')
    {es : List (FifoEvent ι σ E)} (hn : inv n) (hmeets : n.meets sys cond es)
    (hrun : n.run sys es = some n') : inv n' := by
  induction es generalizing n with
  | nil =>
    cases hrun
    exact hn
  | cons e es ih =>
    obtain ⟨n₁, hact₁, hrest⟩ := Option.bind_eq_some_iff.mp hrun
    obtain ⟨hcond, hmeets⟩ := hmeets
    exact ih (hact n e n₁ hn hcond hact₁) (hmeets _ hact₁) hrest

theorem meets.and {cond cond' : Fifo ι σ S M → FifoEvent ι σ E → Prop} {es : List (FifoEvent ι σ E)}
    (h : n.meets sys cond es) (h' : n.meets sys cond' es) :
    n.meets sys (fun n e => cond n e ∧ cond' n e) es := by
  induction es generalizing n with
  | nil => trivial
  | cons e es ih => exact ⟨⟨h.1, h'.1⟩, fun n' hn' => ih (h.2 n' hn') (h'.2 n' hn')⟩

variable (inv : Fifo ι σ S M → Prop) (P : Nat → σ → M → Prop)
  {cond : Fifo ι σ S M → FifoEvent ι σ E → Prop}

/-- **The way of the marked message** — what every arrival of it keeps, while it is answered with
one message, holds of the marked message at the end of every run. -/
theorem Holds.run (hinv : ∀ n e n', inv n → cond n e → n.act sys e = some n' → inv n')
    (hP : ∀ n h q m rest i e s msgs, inv n → cond n (.move q) → P h q m →
      n.queue q = (m, true) :: rest → sys.arrive q m = some (i, e) →
      sys.step i (n.state i) e = some (s, msgs) → ∃ q' m', msgs = [(q', m')] ∧ P (h + 1) q' m')
    {es : List (FifoEvent ι σ E)} {q : σ} {m : M} (hn : inv n) (hholds : n.Holds q m)
    (hp : P 0 q m) (hmeets : n.meets sys cond es) (hrun : n.run sys es = some n') :
    inv n' ∧ ∃ q m, n'.Holds q m ∧ P (n.hops sys es) q m := by
  suffices hgen : ∀ h, P h q m → inv n' ∧ ∃ q m, n'.Holds q m ∧ P (h + n.hops sys es) q m by
    simpa using hgen 0 hp
  clear hp
  induction es generalizing n q m with
  | nil =>
    cases hrun
    exact fun h hp => ⟨hn, q, m, hholds, hp⟩
  | cons e es ih =>
    obtain ⟨n₁, hact, hrest⟩ := Option.bind_eq_some_iff.mp hrun
    obtain ⟨hcond, hmeets⟩ := hmeets
    simp only [hops, hact]
    intro h hp
    obtain ⟨hstays, hhop⟩ | ⟨rest, rfl, hq, i, e', s, msgs, harr, hstep, hmarks⟩ :=
      hholds.act hact
    · rw [hhop, if_neg Bool.false_ne_true, Nat.zero_add]
      exact ih (hinv n e n₁ hn hcond hact) hstays (hmeets _ hact) hrest h hp
    · obtain ⟨q', m', rfl, hp'⟩ := hP n h q m rest i e' s msgs hn hcond hp hq harr hstep
      have hholds' : n₁.Holds q' m' := by
        intro q''
        rw [hmarks, sentTo_singleton]
      have hhop : n.isHop (.move q : FifoEvent ι σ E) = true := by rw [isHop, hq]
      rw [hhop, if_pos rfl, ← Nat.add_assoc]
      exact ih (hinv n _ n₁ hn hcond hact) hholds' (hmeets _ hact) hrest _ hp'

end Fifo

end DoubleDecker
