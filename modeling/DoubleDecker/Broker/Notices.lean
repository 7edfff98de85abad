import DoubleDecker.Broker.Announce
import DoubleDecker.Broker.Distant

/-!
# Broker/Notices — a step and the links of its broker

A broker is the end with the flag on the link to its higher broker, and the end with the copy on the
links to its lower ones.  `Mirror.step_up`, `Mirror.step_sender` and `Mirror.step_other`: every step
keeps the two ends together, as long as an `UNREGDCLI` meets no entry of another broker and a
`REGFAIL` is about the name as it was announced last.
-/

namespace DoubleDecker

variable {H : Type} [DecidableEq H] {env : Env H} {b b' : DdBroker H} {sends : List Send}
    {name : CStr}
  {e : Event}

/-! ## The events about a name -/

/-- **The events that are about a name** of somebody else. -/
theorem subjectOf_eq_some (h : subjectOf env b e = some name) :
    (∃ msg s cookie nameFrame rest, e = .router msg ∧
      (routerCmd msg = some (s, .adddcl, cookie :: nameFrame :: rest) ∨
        routerCmd msg = some (s, .unregdcli, cookie :: nameFrame :: rest)) ∧
      fromBroker env b s cookie ∧ CStr.ofBytes nameFrame = name) ∨
    ∃ msg, e = .dealer msg ∧ refusalOf msg = some name := by
  unfold subjectOf at h
  split at h
  · next msg =>
    refine Or.inl ?_
    split at h
    · next s cookie nameFrame rest hm =>
      split at h
      · next hfrom =>
        cases h
        exact ⟨msg, s, cookie, nameFrame, rest, rfl, Or.inl hm, hfrom, rfl⟩
      · cases h
    · next s cookie nameFrame rest hm =>
      split at h
      · next hfrom =>
        cases h
        exact ⟨msg, s, cookie, nameFrame, rest, rfl, Or.inr hm, hfrom, rfl⟩
      · cases h
    · cases h
  · next msg => exact Or.inr ⟨msg, rfl, h⟩
  · cases h

/-- **Nothing fails and nobody registers anew** — the broker stays in its state, and so do the lower
brokers it knows. -/
structure Steady (env : Env H) (b : DdBroker H) (e : Event) : Prop where
  relinks : e.relinks = false
  stays : ∀ b' sends, step env b e = .done b' sends → b'.state = b.state ∧ b'.lclBrHt = b.lclBrHt

instance (b : DdBroker H) (e : Event) : Decidable (Steady env b e) :=
  decidable_of_iff (e.relinks = false ∧ ∀ b' ∈ (step env b e).broker,
      b'.state = b.state ∧ b'.lclBrHt = b.lclBrHt)
    ⟨fun h => ⟨h.1, fun b' sends hs => h.2 b' (Outcome.broker_eq_some.mpr ⟨sends, hs⟩)⟩,
      fun h => ⟨h.relinks, fun b' hb' => (Outcome.broker_eq_some.mp hb').elim (h.stays b')⟩⟩

/-- **The names of an event stay together** — a client that registers is announced under its whole
name, and an `UNREGDCLI` meets no entry of another broker. -/
structure NamesKept (env : Env H) (b : DdBroker H) (e : Event) : Prop where
  short : e.shortName env b
  own : ownEntry env b e

/-- The full name of the client that a request registers. -/
def Request.fullName : Request → Option CStr
  | .register _ _ ten clientName => .some (ten.name ++ dotStr ++ clientName)
  | _ => .none

instance (b : DdBroker H) (e : Event) : Decidable (e.shortName env b) :=
  decidable_of_iff (∀ s ∈ (request env b e).fullName, s.length ≤ 199) (by
    constructor
    · intro h sockid hash ten clientName hr
      exact h _ (by rw [hr]; rfl)
    · intro h s hs
      cases hr : request env b e with
      | register sockid hash ten clientName =>
        rw [hr] at hs
        cases hs
        exact h _ _ _ _ hr
      | _ =>
        rw [hr] at hs
        cases hs)

instance (b : DdBroker H) (e : Event) : Decidable (NamesKept env b e) :=
  decidable_of_iff (e.shortName env b ∧ ownEntry env b e = true)
    ⟨fun h => ⟨h.1, h.2⟩, fun h => ⟨h.short, h.own⟩⟩

omit [DecidableEq H] in
theorem refusalOf_remote (name : CStr) :
    refusalOf (ddMsg .error [le32 ddErrorRegfail, name.bytes]) = some name := by
  have hcode : readU32 (le32 ddErrorRegfail) = some ddErrorRegfail := by decide
  simp [refusalOf, hcode]

section

variable (hinj : Function.Injective env.xxh32) (hok : TablesOk env b) (hreg : RegistryOk b)
  (hsteady : Steady env b e) (hkept : NamesKept env b e) (h : step env b e = .done b' sends)

include hinj hok hreg hsteady hkept h

/-- An event that is about another name. -/
theorem own_steady (hsubject : subjectOf env b e ≠ some name) : OwnStep b b' sends name :=
  own_step hinj hok (hreg.apart name) hsubject hkept.short hsteady.relinks (hsteady.stays _ _ h).2 h

/-- **What goes up** is about names, or a `PING`. -/
theorem step_ups (hup : b.state = .registered) :
    ∀ m ∈ sends.filterMap Send.toHigher, UpMessage b.keys m := by
  obtain ⟨name, hname⟩ : ∃ name, subjectOf env b e ≠ some name := by
    by_cases h : subjectOf env b e = some ∅
    · exact ⟨publicName, fun h' => absurd (h.symm.trans h') (by decide)⟩
    · exact ⟨∅, h⟩
  exact (own_steady hinj hok hreg hsteady hkept h hname).ups hup

omit hreg hsteady in
/-- An `UNREGDCLI` that finds an entry finds that of its broker. -/
theorem maps_own {msg rest : List Frame} {s s' cookie nameFrame : Frame} (he : e = .router msg)
    (hm : routerCmd msg = some (s, .unregdcli, cookie :: nameFrame :: rest))
    (hfrom : fromBroker env b s cookie) (hmaps : b.Maps (CStr.ofBytes nameFrame) s') : s' = s := by
  subst he
  obtain ⟨d, hd, rfl⟩ := (hok.maps_iff hinj).mp hmaps
  have hown := hkept.own
  rw [ownEntry, request, hm] at hown
  simp only [routerRequest, hfrom, if_true, hd, Option.all_some, decide_eq_true_eq] at hown
  exact hown

omit hsteady hkept in
/-- **A `REGFAIL`** takes the name, and passes the refusal on to where the name was mapped. -/
theorem refusal_spec {msg : List Frame} (he : e = .dealer msg) (hm : refusalOf msg = some name) :
    ¬ b'.Has name ∧ notices name sends = [] ∧
    ∀ s, b.Maps name s → ∃ m, .rsock s m ∈ sends ∧ refusalOf m = some name := by
  subst he
  have hok' : TablesOk env { b with timeout := 0 } := { hok with }
  obtain ⟨c, hc, rfl, hr, body, rfl⟩ | ⟨hnot, s', hmaps, rfl, rfl⟩ | ⟨hnot, rfl, rfl⟩ :=
    refusal_cases hinj hok hm h
  · obtain ⟨hclients, hdist⟩ := names_removeClient hinj hok' hc hr
    have hapart : ∀ s, ¬ b.Maps c.prefixName s := hreg.apart _ ⟨c, hc, rfl⟩
    refine ⟨?_, rfl, fun s hs => absurd hs (hapart s)⟩
    rintro (hc' | ⟨s, hs⟩)
    · exact ((hclients _).mp hc').2 rfl
    · exact hapart s ((Maps.congr hdist _ s).mp hs)
  · refine ⟨?_, rfl, fun s hs => ⟨_, ?_, refusalOf_remote name⟩⟩
    · rintro (hc | ⟨s, hs⟩)
      · exact hnot hc
      · exact ((maps_removeDistNode hinj hok' _ _ _).mp hs).2 rfl
    · rw [hok.maps_unique hs hmaps]
      exact List.mem_singleton_self _
  · exact ⟨hnot, rfl, fun s hs => absurd (Or.inr ⟨s, hs⟩) hnot⟩

/-! ## The link to the higher broker -/

/-- **The flag at the lower end of a link** and what is said of it. -/
theorem Mirror.step_up {copy : Prop} {w : List Notice} {r r' : ℕ} (hup : b.state = .registered)
    (hmirror : Mirror copy w (b.Has name) r)
    (hr : (∀ m, e = .dealer m → refusalOf m ≠ some name) → r ≤ r')
    (hfresh : ∀ m, e = .dealer m → refusalOf m = some name → b.Has name → w = [] ∧ ¬ copy) :
    Mirror copy (w ++ notices name sends) (b'.Has name) r' := by
  by_cases hsubject : subjectOf env b e = some name
  · obtain ⟨msg, s, cookie, nameFrame, rest, rfl, hm, hfrom, hname⟩ | ⟨msg, rfl, hm⟩ :=
      subjectOf_eq_some hsubject
    · have hr := hr fun m he => by cases he
      obtain hm | hm := hm
      · obtain ⟨-, rfl, rfl⟩ | ⟨hnot, d, rfl, rfl⟩ := adddcl_cases hinj hok hm hfrom hname h
        · exact (hmirror.tell (v := []) Iff.rfl).congr Iff.rfl hr
        · refine (hmirror.tell ?_).congr Iff.rfl hr
          rw [notices_addCliUp hup, if_pos rfl]
          refine ⟨hnot, iff_of_true trivial (Or.inr ⟨s, ?_⟩)⟩
          exact (maps_insertDistNode _ _ _ _ _).mpr (Or.inr ⟨rfl, rfl⟩)
      · obtain ⟨-, rfl, rfl⟩ | ⟨⟨s', hmaps⟩, rfl, rfl⟩ := unregdcli_cases hinj hok hm hfrom hname h
        · exact (hmirror.tell (v := []) Iff.rfl).congr Iff.rfl hr
        · refine (hmirror.tell ?_).congr Iff.rfl hr
          rw [notices_delCliUp hup, if_pos rfl]
          refine iff_of_false not_false ?_
          rintro (hc | ⟨s, hs⟩)
          · exact hreg.apart name hc s' hmaps
          · exact ((maps_removeDistNode hinj hok _ _ _).mp hs).2 rfl
    · obtain ⟨hnone, hquiet, -⟩ := refusal_spec hinj hok hreg h rfl hm
      rw [hquiet, List.append_nil]
      exact hmirror.refusal (hfresh msg rfl hm) hnone
  · have hown := own_steady hinj hok hreg hsteady hkept h hsubject
    refine (hmirror.tell (hown.tells hup)).congr Iff.rfl (hr fun m he hm => hsubject ?_)
    rw [he]
    exact hm

/-! ## The links to the lower brokers -/

/-- **The copy of a name for a socket** that the event does not come from. -/
theorem Mirror.step_other {s : Frame} {w : List Notice} {flag : Prop} {r r' : ℕ}
    (hmirror : Mirror (b.Maps name s) w flag r) (hr : r ≤ r')
    (hpos : ∀ m, .rsock s m ∈ sends → refusalOf m = some name → 0 < r')
    (hsource : ∀ msg cmd rest, e = .router msg → routerCmd msg ≠ some (s, cmd, rest)) :
    Mirror (b'.Maps name s) w flag r' := by
  by_cases hsubject : subjectOf env b e = some name
  · obtain ⟨msg, s₁, cookie, nameFrame, rest, he, hm, hfrom, rfl⟩ | ⟨msg, he, hm⟩ :=
      subjectOf_eq_some hsubject
    · have hne : s ≠ s₁ := by
        rintro rfl
        exact hm.elim (hsource msg _ _ he) (hsource msg _ _ he)
      obtain hm | hm := hm
      · subst he
        obtain ⟨-, rfl, -⟩ | ⟨-, d, rfl, -⟩ := adddcl_cases hinj hok hm hfrom rfl h
        · exact hmirror.congr Iff.rfl hr
        · refine hmirror.congr ?_ hr
          rw [maps_insertDistNode]
          exact (or_iff_left fun hs => hne hs.2).symm
      · have hown := fun s' => @maps_own _ _ _ _ _ _ _ hinj hok hkept h _ _ _ s' _ _ he hm hfrom
        subst he
        obtain ⟨-, rfl, -⟩ | ⟨-, rfl, -⟩ := unregdcli_cases hinj hok hm hfrom rfl h
        · exact hmirror.congr Iff.rfl hr
        · refine hmirror.congr ?_ hr
          rw [maps_removeDistNode hinj hok]
          exact (and_iff_left_of_imp fun hs => absurd (hown s hs) hne).symm
    · obtain ⟨hnone, -, hpassed⟩ := refusal_spec hinj hok hreg h he hm
      have hnot : ¬ b'.Maps name s := fun hs => hnone (Or.inr ⟨s, hs⟩)
      by_cases hs : b.Maps name s
      · obtain ⟨m, hmem, hm'⟩ := hpassed s hs
        exact hmirror.giveUp hs hnot (hpos m hmem hm')
      · exact hmirror.congr (iff_of_false hs hnot) hr
  · have hown := own_steady hinj hok hreg hsteady hkept h hsubject
    exact hmirror.congr (hown.maps s).symm hr

/-- **The copy of a name for the socket** that the event comes from. -/
theorem Mirror.step_sender {s : Frame} {m : List Frame} {w : List Notice} {flag : Prop} {r r' : ℕ}
    {keys : DdBrokerKeys} (he : e = .router (s :: m)) (hup : UpMessage keys m)
    (hknown : fromBroker env b s keys.cookie.1)
    (hmirror : Mirror (b.Maps name s) ((noticeFor name m).toList ++ w) flag r) (hr : r ≤ r')
    (hpos : ∀ m, .rsock s m ∈ sends → refusalOf m = some name → 0 < r') :
    Mirror (b'.Maps name s) w flag r' := by
  -- a message that is not about the name, or asks for it
  have hother : subjectOf env b e ≠ some name → noticeFor name m = none ∨
      noticeFor name m = some .ask →
      Mirror (b'.Maps name s) w flag r' := by
    intro hsubject hnotice
    have hmaps := (own_steady hinj hok hreg hsteady hkept h hsubject).maps s
    obtain hnotice | hnotice := hnotice
    · rw [hnotice] at hmirror
      exact hmirror.congr hmaps.symm hr
    · rw [hnotice] at hmirror
      exact hmirror.asked hmaps
  subst he
  cases hup with
  | adddcl name' d =>
    have hm : routerCmd (s :: ddMsg .adddcl [keys.cookie.1, name'.bytes, le32 d]) =
      some (s, .adddcl, [keys.cookie.1, name'.bytes, le32 d]) := routerCmd_ddMsg _ _ _
    by_cases hname : name' = name
    · subst hname
      rw [noticeFor_adddcl, if_pos rfl] at hmirror
      obtain ⟨hhas, rfl, rfl⟩ | ⟨-, d', rfl, -⟩ :=
        adddcl_cases hinj hok hm hknown (CStr.ofBytes_bytes _) h
      · exact hmirror.refuse hmirror.of_add
          (hpos _ (List.mem_singleton_self _) (refusalOf_remote name'))
      · exact hmirror.accept ((maps_insertDistNode _ _ _ _ _).mpr (Or.inr ⟨rfl, rfl⟩))
    · refine hother ?_ (Or.inl ?_)
      · simpa [subjectOf, hm, hknown] using hname
      · rw [noticeFor_adddcl, if_neg hname]
  | unregdcli name' =>
    have hm : routerCmd (s :: ddMsg .unregdcli [keys.cookie.1, name'.bytes]) = some (s, .unregdcli,
      [keys.cookie.1, name'.bytes]) := routerCmd_ddMsg _ _ _
    by_cases hname : name' = name
    · subst hname
      rw [noticeFor_unregdcli, if_pos rfl] at hmirror
      obtain ⟨hnone, rfl, -⟩ | ⟨-, rfl, -⟩ :=
        unregdcli_cases hinj hok hm hknown (CStr.ofBytes_bytes _) h
      · exact hmirror.clear (hnone s)
      · exact hmirror.clear fun hs => ((maps_removeDistNode hinj hok _ _ _).mp hs).2 rfl
    · refine hother ?_ (Or.inl ?_)
      · simpa [subjectOf, hm, hknown] using hname
      · rw [noticeFor_unregdcli, if_neg hname]
  | forward src dst payload =>
    refine hother (by simp [subjectOf]) ?_
    rw [noticeFor_forward]
    split
    · exact Or.inr rfl
    · exact Or.inl rfl
  | ping => exact hother (by simp [subjectOf]) (Or.inl (noticeFor_ping _ _))

end

end DoubleDecker
