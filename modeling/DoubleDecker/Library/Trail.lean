import DoubleDecker.Library.Fifo

/-!
# Library/Trail — how often a message is passed on

Every queue has a rank.  When a message of some kind is answered with at most one more of that kind,
in a queue of a lower rank, and other messages with none, then what a marked event leads to is no
more messages of that kind than the ranks go down (`Fifo.sent_le`).
-/

namespace DoubleDecker

variable {ι σ S M E : Type} [DecidableEq ι] [DecidableEq σ]

namespace Fifo

variable (sys : FifoSystem ι σ S M E) (kind : σ → M → Bool) (rank : σ → ℕ) (n : Fifo ι σ S M)

/-! ## What is sent for a mark -/

/-- What a node sends when it handles an event. -/
def answers (i : ι) (e : E) : List (σ × M) :=
  match sys.step i (n.state i) e with
  | some (_, msgs) => msgs
  | none => []

/-- What is sent in answer to a marked message, when one is what happens next. -/
def marked : FifoEvent ι σ E → List (σ × M)
  | .outside _ _ => []
  | .move q =>
    match n.queue q with
    | (m, true) :: _ =>
      match sys.arrive q m with
      | some (i, e) => n.answers sys i e
      | none => []
    | _ => []

/-- The messages of the kind. -/
def ofKind (msgs : List (σ × M)) : List (σ × M) := msgs.filter fun x => kind x.1 x.2

/-- How many messages of the kind a run sends in answer to marked messages. -/
def sent (n : Fifo ι σ S M) : List (FifoEvent ι σ E) → ℕ
  | [] => 0
  | e :: es =>
    match n.act sys e with
    | some n' => (ofKind kind (n.marked sys e)).length + n'.sent es
    | none => 0

/-- The marked messages of the kind in a queue. -/
def trail (q : σ) : List M := (n.marks q).filter (kind q)

/-- **One message at most**, in a queue of a rank below the bound. -/
def Below (bound : ℕ) (msgs : List (σ × M)) : Prop :=
  msgs = [] ∨ ∃ q m, msgs = [(q, m)] ∧ rank q < bound

/-- **One marked message of the kind at most**, in a queue of a rank up to the bound. -/
def OnTrail (bound : ℕ) (n : Fifo ι σ S M) : Prop :=
  (∀ q, n.trail kind q = []) ∨
  ∃ q m, (∀ q', n.trail kind q' = if q' = q then [m] else []) ∧ rank q ≤ bound

variable {sys kind rank n} {n' : Fifo ι σ S M} {bound : ℕ} {msgs : List (σ × M)}

/-! ## One step -/

omit [DecidableEq ι] in
/-- Sorting by queue and by kind. -/
theorem filter_sentTo (q : σ) (msgs : List (σ × M)) :
    (sentTo q msgs).filter (kind q) = sentTo q (ofKind kind msgs) := by
  induction msgs with
  | nil => rfl
  | cons x msgs ih =>
    obtain ⟨q', m⟩ := x
    simp only [sentTo, ofKind] at ih ⊢
    by_cases hq : q' = q
    · subst hq
      by_cases hm : kind q' m
      · simpa [hm] using ih
      · simpa [hm] using ih
    · by_cases hm : kind q' m
      · simpa [hq, hm] using ih
      · simpa [hq, hm] using ih

omit [DecidableEq ι] in
/-- **What is sent when nothing else is on the trail** — the bound goes down by it. -/
theorem Below.onTrail (h : Below rank bound (ofKind kind msgs))
    (htrail : ∀ q, n.trail kind q = sentTo q (ofKind kind msgs)) :
    (ofKind kind msgs).length ≤ bound ∧
      OnTrail kind rank (bound - (ofKind kind msgs).length) n := by
  obtain hnil | ⟨q, m, hone, hlt⟩ := h
  · rw [hnil] at htrail ⊢
    exact ⟨Nat.zero_le _, Or.inl htrail⟩
  · rw [hone] at htrail ⊢
    refine ⟨Nat.one_le_of_lt hlt, Or.inr ⟨q, m, fun q' => ?_, Nat.le_sub_one_of_lt hlt⟩⟩
    rw [htrail, sentTo_singleton]

omit [DecidableEq ι] [DecidableEq σ] in
theorem Below.mono {bound' : ℕ} (h : Below rank bound msgs) (hle : bound ≤ bound') :
    Below rank bound' msgs := by
  obtain hnil | ⟨q, m, hone, hlt⟩ := h
  · exact Or.inl hnil
  · exact Or.inr ⟨q, m, hone, Nat.lt_of_lt_of_le hlt hle⟩

omit [DecidableEq ι] [DecidableEq σ] in
theorem Below.eq_nil (h : Below rank 0 msgs) : msgs = [] := by
  obtain hnil | ⟨q, m, -, hlt⟩ := h
  · exact hnil
  · exact absurd hlt (Nat.not_lt_zero _)

variable (sys kind rank) in
/-- **A marked message is passed on downwards** — one of the kind is answered with one of them at
most, in a queue of a lower rank, and another one with none. -/
def Descends (n : Fifo ι σ S M) (e : FifoEvent ι σ E) : Prop :=
  ∀ q m rest i e' s msgs, e = .move q → n.queue q = (m, true) :: rest →
    sys.arrive q m = some (i, e') → sys.step i (n.state i) e' = some (s, msgs) →
    Below rank (if kind q m then rank q else 0) (ofKind kind msgs)

omit [DecidableEq ι] in
theorem OnTrail.congr (h : OnTrail kind rank bound n)
    (hsame : ∀ q, n'.trail kind q = n.trail kind q) : OnTrail kind rank bound n' := by
  simpa only [OnTrail, hsame] using h

/-- **One step of the trail.** -/
theorem OnTrail.act (h : OnTrail kind rank bound n) {e : FifoEvent ι σ E}
    (hdesc : Descends sys kind rank n e) (hact : n.act sys e = some n') :
    (ofKind kind (n.marked sys e)).length ≤ bound ∧
      OnTrail kind rank (bound - (ofKind kind (n.marked sys e)).length) n' := by
  obtain ⟨hhop, hmarks⟩ | ⟨q₀, m, rest, i, e', s, msgs, rfl, hq₀, harr, hstep, hmarks⟩ :=
    marks_act hact
  · have hnone : n.marked sys e = [] := by
      cases e with
      | outside => rfl
      | move q =>
        rw [isHop] at hhop
        rw [marked]
        rcases hq : n.queue q with _ | ⟨⟨m, mark⟩, rest⟩
        · rfl
        · rw [hq] at hhop
          cases mark with
          | false => rfl
          | true => cases hhop
    rw [hnone]
    refine ⟨Nat.zero_le _, h.congr fun q => ?_⟩
    rw [trail, hmarks]
    rfl
  · have hmarked : n.marked sys (.move q₀ : FifoEvent ι σ E) = msgs := by
      simp only [marked, hq₀, harr, answers, hstep]
    rw [hmarked]
    have hbelow := hdesc q₀ m rest i e' s msgs rfl hq₀ harr hstep
    have hhead : n.trail kind q₀ =
        (m :: (rest.filter Prod.snd).map Prod.fst).filter (kind q₀) := by
      rw [trail, marks, hq₀, List.filter_cons_of_pos rfl, List.map_cons]
    have htrail : ∀ q, n'.trail kind q =
        (if q = q₀ then ((rest.filter Prod.snd).map Prod.fst).filter (kind q₀)
          else n.trail kind q) ++ sentTo q (ofKind kind msgs) := by
      intro q
      rw [trail, hmarks, List.filter_append, filter_sentTo]
      by_cases hq : q = q₀
      · rw [hq, if_pos rfl, if_pos rfl]
      · rw [if_neg hq, if_neg hq]
        rfl
    by_cases hkind : kind q₀ m
    · -- the message that was on the trail
      rw [List.filter_cons_of_pos hkind] at hhead
      rw [if_pos hkind] at hbelow
      obtain hnone | ⟨q, m', hone, hle⟩ := h
      · rw [hnone] at hhead
        cases hhead
      · rw [hone] at hhead
        have hq : q₀ = q := by
          by_contra hne
          rw [if_neg hne] at hhead
          cases hhead
        subst hq
        rw [if_pos rfl, List.cons.injEq] at hhead
        refine (hbelow.mono hle).onTrail fun q => ?_
        rw [htrail, ← hhead.2]
        split
        · rfl
        · next hne => rw [hone, if_neg hne, List.nil_append]
    · rw [if_neg hkind] at hbelow
      have hnil := hbelow.eq_nil
      rw [List.filter_cons_of_neg hkind] at hhead
      rw [hnil]
      refine ⟨Nat.zero_le _, h.congr fun q => ?_⟩
      rw [htrail, hnil, ← hhead]
      split
      · next hq => rw [hq]; exact List.append_nil _
      · exact List.append_nil _

/-! ## Runs -/

variable {inv : Fifo ι σ S M → Prop} {cond : Fifo ι σ S M → FifoEvent ι σ E → Prop}

/-- **What is left of the trail** in a run. -/
theorem OnTrail.sent_le (hinv : ∀ n e n', inv n → cond n e → n.act sys e = some n' → inv n')
    (hdesc : ∀ n e, inv n → cond n e → Descends sys kind rank n e)
    {es : List (FifoEvent ι σ E)} (hn : inv n) (h : OnTrail kind rank bound n)
    (hmeets : n.meets sys cond es) : n.sent sys kind es ≤ bound := by
  induction es generalizing n bound with
  | nil => exact Nat.zero_le _
  | cons e es ih =>
    simp only [sent]
    split
    · next n' hact =>
      obtain ⟨hle, htrail⟩ := h.act (hdesc n e hn hmeets.1) hact
      have hrest := ih (hinv n e n' hn hmeets.1 hact) htrail (hmeets.2 n' hact)
      omega
    · exact Nat.zero_le _

/-- **The trail of an event** — what it sends and what the run sends in answer to that. -/
theorem sent_le (rank : σ → ℕ) (inv : Fifo ι σ S M → Prop)
    (hinv : ∀ n e n', inv n → cond n e → n.act sys e = some n' → inv n')
    (hdesc : ∀ n e, inv n → cond n e → Descends sys kind rank n e) {i : ι} {e : E}
    (hclear : n.Clear) (hhandle : n.handle sys i e true = some n') (hn' : inv n')
    (hbelow : Below rank bound (ofKind kind (n.answers sys i e)))
    {es : List (FifoEvent ι σ E)} (hmeets : n'.meets sys cond es) :
    (ofKind kind (n.answers sys i e)).length + n'.sent sys kind es ≤ bound := by
  obtain ⟨s, msgs, hstep, hmarks⟩ := marks_handle hhandle
  have hanswers : n.answers sys i e = msgs := by simp only [answers, hstep]
  rw [hanswers] at hbelow ⊢
  obtain ⟨hle, htrail⟩ := hbelow.onTrail (n := n') fun q => by
    rw [trail, hmarks, hclear, if_pos rfl, List.nil_append, filter_sentTo]
  have hrest := htrail.sent_le hinv hdesc hn' hmeets
  omega

end Fifo

end DoubleDecker
