import DoubleDecker.Client.Handlers
import Mathlib.Data.Set.Insert

/-!
# Client/Sublist — the list of subscriptions over its whole life

    add (x, /)    add (x, /*/)    delete (x, /)        (x, /*/) is the one that goes

`sublist_add` and `sublist_activate` compare topic and scope, the comparator that `sublist_delete`
searches with compares the topic only; and the loops start where the cursor stands.  The list is the
set of what was added and not deleted in every history in which neither shows (`isSet_iff`).
-/

namespace DoubleDecker

/-- What an entry is for. -/
def Ddtopic.entry (item : Ddtopic) : CStr × CStr := (item.topic, item.scope)

/-- A call that reads or changes the list. -/
inductive SublistCall where
  | add (topic scope : CStr) (active : Bool)
  | delete (topic scope : CStr)
  | activate (topic scope : CStr)
  | deactivateAll
  | resubscribe (cookie : Cookie)
  deriving DecidableEq

namespace SublistCall

/-- What a call leaves. -/
def exec (l : Zlistx Ddtopic) : SublistCall → Zlistx Ddtopic
  | add topic scope active => sublistAdd l topic scope active
  | delete topic _ => sublistDelete l topic
  | activate topic scope => sublistActivate l topic scope
  | deactivateAll => sublistDeactivateAll l
  | resubscribe cookie => (sublistResubscribe l cookie).1

/-- **A call the list stays a set after** — `sublist_add` does not skip the entry it looks for, and
the first entry of the topic that `sublist_delete` finds has the scope it was asked for. -/
def fits (l : Zlistx Ddtopic) : SublistCall → Bool
  | add topic scope _ => l.skipped.all fun item => item.entry ≠ (topic, scope)
  | delete topic scope => (l.items.find? (·.topic = topic)).all (·.scope = scope)
  | _ => true

end SublistCall

/-- The list after some calls on a new one, the last call first. -/
def sublistAfter : List SublistCall → Zlistx Ddtopic
  | [] => .empty
  | c :: cs => c.exec (sublistAfter cs)

/-- What was added and not deleted since. -/
def kept : List SublistCall → Set (CStr × CStr)
  | [] => ∅
  | .add topic scope _ :: cs => insert (topic, scope) (kept cs)
  | .delete topic scope :: cs => kept cs \ {(topic, scope)}
  | _ :: cs => kept cs

/-- What the entries of a list are for. -/
def entries (l : Zlistx Ddtopic) : List (CStr × CStr) := l.items.map Ddtopic.entry

/-- **The list is a set** — it has one entry for each pair that was added and not deleted since, and
`sublist_delete` took away the entry it was asked for and no other. -/
structure IsSet (cs : List SublistCall) : Prop where
  nodup : (entries (sublistAfter cs)).Nodup
  mem : ∀ e, e ∈ entries (sublistAfter cs) ↔ e ∈ kept cs
  deletes : ∀ topic scope cs', cs = .delete topic scope :: cs' →
    (sublistAfter cs).items = (sublistAfter cs').items.filter (·.entry ≠ (topic, scope))

/-! ## One call -/

section

variable {l : Zlistx Ddtopic} {topic scope : CStr}

/-- A pass that only marks entries has the same ones. -/
theorem entries_pass {f : Ddtopic → Ddtopic} (hf : ∀ item, (f item).entry = item.entry) :
    entries (l.pass f) = entries l :=
  Zlistx.map_items_pass hf l

/-- **`sublist_add`** looks for the entry in what its loop visits. -/
theorem entries_sublistAdd (active : Bool) : entries (sublistAdd l topic scope active) =
    if (topic, scope) ∈ l.rest.map Ddtopic.entry then entries l else
    (topic, scope) :: entries l := by
  have hsame : ∀ item : Ddtopic,
      (decide (item.topic = topic) && decide (item.scope = scope)) = true ↔
      item.entry = (topic, scope) := fun item => by
    rw [Bool.and_eq_true, decide_eq_true_eq, decide_eq_true_eq, Ddtopic.entry, Prod.mk.injEq]
  have hpass := @entries_pass l (fun item =>
    if decide (item.topic = topic) && decide (item.scope = scope) then
      { item with active := active }
    else item) fun item => by split <;> rfl
  unfold sublistAdd
  simp only
  by_cases hmem : (topic, scope) ∈ l.rest.map Ddtopic.entry
  · obtain ⟨item, hitem, hentry⟩ := List.mem_map.mp hmem
    rw [if_pos hmem, if_pos (List.any_eq_true.mpr ⟨item, hitem, (hsame item).mpr hentry⟩), hpass]
  · have hnone : ¬ (l.rest.any fun item =>
        decide (item.topic = topic) && decide (item.scope = scope)) = true := fun h => by
      obtain ⟨item, hitem, hentry⟩ := List.any_eq_true.mp h
      exact hmem (List.mem_map.mpr ⟨item, hitem, (hsame item).mp hentry⟩)
    rw [if_neg hmem, if_neg hnone, ← hpass]
    rfl

/-- **`sublist_delete`** takes away the first entry of the topic, if there is one. -/
theorem sublistDelete_cases (topic : CStr) :
    (∀ item ∈ l.items, item.topic ≠ topic) ∧ sublistDelete l topic = l ∨
    ∃ u item v, l.items = u ++ item :: v ∧ (∀ x ∈ u, x.topic ≠ topic) ∧ item.topic = topic ∧
      (sublistDelete l topic).items = u ++ v ∧ (sublistDelete l topic).cursor = u.length := by
  by_cases hmem : ∃ item ∈ l.items, item.topic = topic
  · have hsome : (l.items.find? fun item => decide (item.topic = topic)).isSome :=
      List.find?_isSome.mpr (by simpa using hmem)
    obtain ⟨item, hfound⟩ := Option.isSome_iff_exists.mp hsome
    obtain ⟨htopic, u, v, hitems, hu⟩ := List.find?_eq_some_iff_append.mp hfound
    have hskip : ∀ x ∈ u, decide (x.topic = topic) = false := fun x hx => by simpa using hu x hx
    obtain ⟨l', hfind, hdel, hcursor⟩ := Zlistx.delete_find hitems hskip htopic
    refine Or.inr ⟨u, item, v, hitems, fun x hx => by simpa using hu x hx,
      by simpa using htopic, ?_, ?_⟩
    · rw [sublistDelete, hfind]
      exact hdel
    · rw [sublistDelete, hfind]
      exact hcursor
  · have hnone : ∀ item ∈ l.items, item.topic ≠ topic := fun item hitem h => hmem ⟨item, hitem, h⟩
    refine Or.inl ⟨hnone, ?_⟩
    rw [sublistDelete, Zlistx.find_of_none fun item hitem => by simpa using hnone item hitem]

end

/-! ## Every history -/

/-- **What holds throughout a history** when it holds at the start: each call decides whether it
holds after it. -/
theorem forall_suffix_iff {α : Type*} {P : List α → Prop} {Q : α → List α → Prop} (hnil : P [])
    (hcons : ∀ c cs, P cs → (P (c :: cs) ↔ Q c cs)) (cs : List α) :
    (∀ cs', cs' <:+ cs → P cs') ↔ ∀ c cs', c :: cs' <:+ cs → Q c cs' := by
  constructor
  · intro hP c cs' hc
    exact (hcons c cs' (hP cs' ((List.suffix_cons c cs').trans hc))).mp (hP _ hc)
  · intro hQ cs' hcs'
    induction cs' with
    | nil => exact hnil
    | cons c cs' ih =>
      exact (hcons c cs' (ih ((List.suffix_cons c cs').trans hcs'))).mpr (hQ c cs' hcs')

section

variable {cs : List SublistCall} {topic scope : CStr}

/-- A call that only marks entries. -/
theorem IsSet.of_same {c : SublistCall} (h : IsSet cs)
    (hentries : entries (sublistAfter (c :: cs)) = entries (sublistAfter cs))
    (hkept : kept (c :: cs) = kept cs) (hc : ∀ topic scope, c ≠ .delete topic scope) :
    IsSet (c :: cs) where
  nodup := hentries ▸ h.nodup
  mem := by rw [hentries, hkept]; exact h.mem
  deletes := fun topic scope cs' heq => absurd (List.cons.inj heq).1 (hc topic scope)

/-- **One `sublist_add`.** -/
theorem IsSet.add_iff (h : IsSet cs) (active : Bool) :
    IsSet (.add topic scope active :: cs) ↔
      (SublistCall.add topic scope active).fits (sublistAfter cs) := by
  have hentries := @entries_sublistAdd (sublistAfter cs) topic scope active
  have hsplit : entries (sublistAfter cs) = (sublistAfter cs).skipped.map Ddtopic.entry ++
      (sublistAfter cs).rest.map Ddtopic.entry := by
    rw [← List.map_append, Zlistx.skipped_append_rest]
    rfl
  have hfits : (SublistCall.add topic scope active).fits (sublistAfter cs) ↔
      (topic, scope) ∉ (sublistAfter cs).skipped.map Ddtopic.entry := by
    simp [SublistCall.fits]
  have hnodup := hsplit ▸ h.nodup
  rw [hfits]
  split at hentries
  · next hrest =>
    refine iff_of_true ⟨hentries ▸ h.nodup, fun e => ?_, fun _ _ _ heq => by cases heq⟩ fun hskip =>
      List.disjoint_of_nodup_append hnodup hskip hrest
    have hold : (topic, scope) ∈ kept cs := (h.mem _).mp (hsplit ▸ List.mem_append_right _ hrest)
    rw [sublistAfter, SublistCall.exec, hentries, h.mem, kept, Set.insert_eq_of_mem hold]
  · next hrest =>
    constructor
    · intro hset hskip
      have hcons := hset.nodup
      rw [sublistAfter, SublistCall.exec, hentries] at hcons
      exact (List.nodup_cons.mp hcons).1 (hsplit ▸ List.mem_append_left _ hskip)
    · intro hskip
      have hnew : (topic, scope) ∉ entries (sublistAfter cs) := by
        rw [hsplit, List.mem_append, not_or]
        exact ⟨hskip, hrest⟩
      refine ⟨?_, fun e => ?_, fun _ _ _ heq => by cases heq⟩
      · rw [sublistAfter, SublistCall.exec, hentries]
        exact List.nodup_cons.mpr ⟨hnew, h.nodup⟩
      · rw [sublistAfter, SublistCall.exec, hentries, List.mem_cons, h.mem, kept,
          Set.mem_insert_iff]

/-- No entry has the topic: nothing is deleted. -/
theorem IsSet.delete_absent (h : IsSet cs)
    (hnone : ∀ item ∈ (sublistAfter cs).items, item.topic ≠ topic)
    (hsame : sublistDelete (sublistAfter cs) topic = sublistAfter cs) :
    IsSet (.delete topic scope :: cs) := by
  have hafter : sublistAfter (.delete topic scope :: cs) = sublistAfter cs := hsame
  have hentry : ∀ item ∈ (sublistAfter cs).items, item.entry ≠ (topic, scope) :=
    fun item hitem heq => hnone item hitem (congrArg Prod.fst heq)
  refine ⟨hafter ▸ h.nodup, fun e => ?_, fun topic' scope' cs' heq => ?_⟩
  · rw [hafter, h.mem, kept, Set.mem_sdiff, Set.mem_singleton_iff]
    refine (and_iff_left_of_imp fun hmem heq => ?_).symm
    obtain ⟨item, hitem, hitementry⟩ := List.mem_map.mp ((h.mem _).mpr hmem)
    exact hentry item hitem (hitementry.trans heq)
  · cases heq
    rw [hafter, List.filter_eq_self.mpr fun item hitem => decide_eq_true (hentry item hitem)]

/-- The first entry of the topic is deleted, and it was to be deleted. -/
theorem IsSet.delete_found_iff (h : IsSet cs) {u v : List Ddtopic} {item : Ddtopic}
    (hitems : (sublistAfter cs).items = u ++ item :: v) (htopic : item.topic = topic)
    (hleft : (sublistAfter (.delete topic scope :: cs)).items = u ++ v) :
    IsSet (.delete topic scope :: cs) ↔ item.scope = scope := by
  have hnodup : (u.map Ddtopic.entry ++ item.entry :: v.map Ddtopic.entry).Nodup := by
    have hnodup := h.nodup
    rwa [entries, hitems, List.map_append, List.map_cons] at hnodup
  obtain ⟨hout, hrest⟩ := List.nodup_cons.mp (List.nodup_middle.mp hnodup)
  rw [← List.map_append] at hout hrest
  have hmem : ∀ e, e ∈ entries (sublistAfter cs) ↔
      e = item.entry ∨ e ∈ (u ++ v).map Ddtopic.entry :=
    fun e => by
      rw [entries, hitems, List.map_append, List.map_append, List.map_cons, List.mem_append,
        List.mem_cons, List.mem_append, or_left_comm]
  constructor
  · -- otherwise the entry that went was to be kept
    intro hset
    by_contra hscope
    have hkept : item.entry ∈ kept (.delete topic scope :: cs) :=
      ⟨(h.mem _).mp ((hmem _).mpr (Or.inl rfl)), fun heq => hscope (congrArg Prod.snd heq)⟩
    have hin := (hset.mem _).mpr hkept
    rw [entries, hleft] at hin
    exact hout hin
  · intro hscope
    have hentry : item.entry = (topic, scope) := by rw [Ddtopic.entry, htopic, hscope]
    refine ⟨by rwa [entries, hleft], fun e => ?_, fun topic' scope' cs' heq => ?_⟩
    · rw [kept, Set.mem_sdiff, Set.mem_singleton_iff, ← h.mem, hmem, ← hentry, entries, hleft]
      exact ⟨fun he => ⟨Or.inr he, fun heq => hout (heq ▸ he)⟩, fun he => he.1.resolve_left he.2⟩
    · cases heq
      have hothers : ∀ x ∈ u ++ v, x.entry ≠ (topic, scope) := fun x hx heq =>
        hout (hentry ▸ heq ▸ List.mem_map_of_mem hx)
      have hkeep : (u ++ v).filter (·.entry ≠ (topic, scope)) = u ++ v :=
        List.filter_eq_self.mpr fun x hx => decide_eq_true (hothers x hx)
      rw [hleft, hitems, List.filter_append, List.filter_cons_of_neg (by simp [hentry]),
        ← List.filter_append, hkeep]

/-- **One `sublist_delete`.** -/
theorem IsSet.delete_iff (h : IsSet cs) :
    IsSet (.delete topic scope :: cs) ↔
      (SublistCall.delete topic scope).fits (sublistAfter cs) := by
  obtain ⟨hnone, hsame⟩ | ⟨u, item, v, hitems, hu, htopic, hleft, -⟩ :=
    @sublistDelete_cases (sublistAfter cs) topic
  · refine iff_of_true (h.delete_absent hnone hsame) ?_
    rw [SublistCall.fits, List.find?_eq_none.mpr fun item hitem => by simpa using hnone item hitem]
    rfl
  · have hfound : (sublistAfter cs).items.find? (·.topic = topic) = some item :=
      List.find?_eq_some_iff_append.mpr
        ⟨decide_eq_true htopic, u, v, hitems, fun x hx => by simpa using hu x hx⟩
    rw [SublistCall.fits, hfound, Option.all_some, decide_eq_true_eq]
    exact h.delete_found_iff hitems htopic hleft

/-- **One call.** -/
theorem IsSet.cons_iff (h : IsSet cs) (c : SublistCall) :
    IsSet (c :: cs) ↔ c.fits (sublistAfter cs) := by
  cases c with
  | add topic scope active => exact h.add_iff active
  | delete topic scope => exact h.delete_iff
  | activate topic scope =>
    refine iff_of_true (h.of_same ?_ rfl fun _ _ heq => by cases heq) rfl
    exact entries_pass fun item => by split <;> rfl
  | deactivateAll =>
    exact iff_of_true (h.of_same (entries_pass fun item => rfl) rfl fun _ _ heq => by cases heq) rfl
  | resubscribe cookie =>
    exact iff_of_true (h.of_same (entries_pass fun item => rfl) rfl fun _ _ heq => by cases heq) rfl

theorem isSet_nil : IsSet [] where
  nodup := List.nodup_nil
  mem := fun _ => iff_of_false List.not_mem_nil fun h => h
  deletes := fun _ _ _ heq => by cases heq

end

/-- **When the list is a set** — after every call of a history on a new list, just when every call
fits: no `sublist_add` skips the entry it looks for, and every `sublist_delete` finds an entry with
the scope it was asked for first, or none of the topic. -/
theorem isSet_iff (cs : List SublistCall) : (∀ cs', cs' <:+ cs → IsSet cs') ↔
    ∀ c cs', c :: cs' <:+ cs → c.fits (sublistAfter cs') :=
  forall_suffix_iff isSet_nil (fun c _ h => h.cons_iff c) cs

/-- The calls that subscribe to `x` with the scopes `/` and `/*/` and give the first one up. -/
def deleteFirstScope : List SublistCall :=
  let x := CStr.ofBytes (CStr.ascii "x")
  let all := CStr.ofBytes (CStr.ascii "/")
  let region := CStr.ofBytes (CStr.ascii "/*/")
  [.delete x all, .add x region false, .add x all false]

/-- **The list is not always a set**: of `(x, /)` and `(x, /*/)` the second goes for the first. -/
theorem not_isSet : ¬ ∀ cs cs', cs' <:+ cs → IsSet cs' := by
  intro hall
  have hset := hall deleteFirstScope _ (List.suffix_refl _)
  exact absurd (hset.deletes _ _ _ rfl) (by decide)

end DoubleDecker
