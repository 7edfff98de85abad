import DoubleDecker.Broker.Scope
import DoubleDecker.Library.Printing

/-!
# Broker/Buffers — the scope strings and the buffers they are printed into

`s_cb_sub` and `s_cb_unsub` print the components of a scope string into `newscope[128]`,
`dd_broker_set_scope` prints the numbers of the broker's scope into 256 bytes.  None of the loops
looks at what is left before it goes on; which scope strings stay inside is `scope_buffers_iff`.
-/

namespace DoubleDecker

open Snprintf

/-! ## `s_cb_sub` and `s_cb_unsub` -/

/-- What the loop over the tokens prints, and the slash after it.  `t` runs through the broker's
scope beside the tokens.  At its end the string `strtok_r` works on is freed and the loop goes on,
but prints nothing more, whatever tokens it still finds there. -/
def newscopeTexts : (tokens scope : List CStr) → List CStr
  | [], _ => [slashStr]
  | _ :: _, [] => [slashStr]
  | token :: tokens, t :: scope =>
    (if token.bytes = [42] then slashStr ++ t else slashStr ++ token) :: newscopeTexts tokens scope

/-- The calls of `snprintf` on `newscope`. -/
def newscopeCalls (scope : List CStr) (scopestr : CStr) : List Snprintf :=
  calls 0 128
    (if scopestr = noscope then [∅] else newscopeTexts (scopestr.tokens slash) scope)

/-- The texts are the expanded components behind slashes, and a slash. -/
theorem newscopeTexts_eq : ∀ tokens scope : List CStr, newscopeTexts tokens scope =
    ((expand scope tokens).map fun c => slashStr ++ c) ++ [slashStr]
  | [], scope => by simp [newscopeTexts, expand]
  | token :: tokens, [] => by simp [newscopeTexts, expand]
  | token :: tokens, t :: scope => by
    rw [newscopeTexts, newscopeTexts_eq tokens scope]
    simp only [expand, List.zipWith_cons_cons, List.map_cons, List.cons_append]
    split <;> rfl

/-- **The scope string fits**: it is `noscope`, or the components that are printed, no more than the
broker's scope has numbers, are together shorter than the buffer, each with its slash. -/
def NewscopeFits (scope : List CStr) (scopestr : CStr) : Prop :=
  scopestr = noscope ∨
    ((expand scope (scopestr.tokens slash)).map fun c => c.length + 1).sum < 128

/-- One byte more for each text. -/
theorem textLength_map {f : CStr → CStr} (hf : ∀ c, (f c).length = c.length + 1) (l : List CStr) :
    textLength (l.map f) = (l.map fun c => c.length + 1).sum := by
  rw [textLength, List.map_map]
  exact congrArg List.sum (List.map_congr_left fun c _ => hf c)

theorem length_slash_append (c : CStr) : (slashStr ++ c).length = c.length + 1 := by
  rw [CStr.length_append, Nat.add_comm]
  rfl

theorem length_append_slash (c : CStr) : (c ++ slashStr).length = c.length + 1 :=
  CStr.length_append c slashStr

theorem textLength_newscopeTexts (scope tokens : List CStr) :
    textLength (newscopeTexts tokens scope).dropLast =
      ((expand scope tokens).map fun c => c.length + 1).sum := by
  rw [newscopeTexts_eq, List.dropLast_concat, textLength_map length_slash_append]

/-- **When the calls on `newscope` are inside it.** -/
theorem newscope_inside_iff (scope : List CStr) (scopestr : CStr) :
    (∀ c ∈ newscopeCalls scope scopestr, c.Inside 128) ↔ NewscopeFits scope scopestr := by
  unfold newscopeCalls NewscopeFits
  by_cases hno : scopestr = noscope
  · rw [if_pos hno]
    refine iff_of_true ?_ (Or.inl hno)
    simpa using (inside_calls_iff (n := 128) (by decide) 0
      (List.cons_ne_nil (∅ : CStr) [])).mpr (by simp)
  · have hne : newscopeTexts (scopestr.tokens slash) scope ≠ [] := by
      rw [newscopeTexts_eq]
      exact List.append_ne_nil_of_right_ne_nil _ (List.cons_ne_nil _ _)
    rw [if_neg hno, or_iff_right hno, ← textLength_newscopeTexts]
    simpa using inside_calls_iff (n := 128) (by decide) 0 hne

/-- **What is in the buffer** is the scope part of the key, when the calls are inside. -/
theorem newscope_of_inside {scope : List CStr} {scopestr : CStr} (hno : scopestr ≠ noscope)
    (hlen : (scopestr.tokens slash).length ≤ scope.length)
    (h : ∀ c ∈ newscopeCalls scope scopestr, c.Inside 128) :
    newscope scope scopestr = some
      (((newscopeTexts (scopestr.tokens slash) scope).foldl (· ++ ·) ∅).truncate 127) := by
  have hfits := ((newscope_inside_iff scope scopestr).mp h).resolve_left hno
  have htext : (newscopeTexts (scopestr.tokens slash) scope).foldl (· ++ ·) (∅ : CStr) =
      scopeText (expand scope (scopestr.tokens slash)) := by
    rw [newscopeTexts_eq, List.foldl_append, List.foldl_map, scopeText]
    rfl
  have hsum : (scopeText (expand scope (scopestr.tokens slash))).length =
      ((expand scope (scopestr.tokens slash)).map fun c => c.length + 1).sum + 1 := by
    rw [CStr.length, scopeText, CStr.bytes_append, foldl_scope_bytes, List.length_append,
      List.length_append, List.length_flatMap]
    simp [CStr.length, slashStr]
  rw [newscope_cases hno, if_pos ⟨hlen, by omega⟩, htext]

/-! ## `dd_broker_set_scope` -/

/-- `\\d`. -/
def isDigit (c : UInt8) : Bool := 48 ≤ c ∧ c ≤ 57

/-- A group of digits and what follows it. -/
def digits (l : List UInt8) : Option (CStr × List UInt8) :=
  if l.takeWhile isDigit = [] then none
  else some (CStr.ofBytes (l.takeWhile isDigit), l.dropWhile isDigit)

/-- What follows a slash. -/
def afterSlash : List UInt8 → Option (List UInt8)
  | [] => none
  | c :: l => if c = slash then some l else none

/-- What the groups of `^/*(\\d+)/(\\d+)/(\\d+)/*$` match. -/
def rexscope (scopestr : CStr) : Option (List CStr) := do
  let (s1, l) ← digits (scopestr.bytes.dropWhile (· == slash))
  let l ← afterSlash l
  let (s2, l) ← digits l
  let l ← afterSlash l
  let (s3, l) ← digits l
  if l.all (· == slash) then some [s1, s2, s3] else none

/-- What is printed into the 256 bytes of `brokerscope`. -/
def brokerScopeTexts (scope : List CStr) : List CStr :=
  slashStr :: scope.map fun t => t ++ slashStr

/-- `dd_broker_set_scope`: the new list of numbers, after those of an earlier call, and the calls of
`snprintf`; `none` is the return value -1. -/
def ddBrokerSetScope (scope : List CStr) (scopestr : CStr) :
    Option (List CStr × List Snprintf) :=
  (rexscope scopestr).map fun hits =>
    (scope ++ hits, calls 0 256 (brokerScopeTexts (scope ++ hits)))

/-- The broker scope of a configuration is what the calls print. -/
theorem Config.brokerScope_texts (cfg : Config) :
    cfg.brokerScope = ((brokerScopeTexts cfg.scope).foldl (· ++ ·) ∅).truncate 255 := by
  rw [Config.brokerScope, brokerScopeTexts, List.foldl_cons, List.foldl_map]
  congr 2
  funext s t
  exact CStr.append_assoc s t slashStr

/-- **When the calls on `brokerscope` are inside it**: the last number may be cut off. -/
theorem brokerScope_inside_iff (scope : List CStr) :
    (∀ c ∈ calls 0 256 (brokerScopeTexts scope), c.Inside 256) ↔
      1 + (scope.dropLast.map fun t => t.length + 1).sum < 256 := by
  have hlen : 0 + textLength (brokerScopeTexts scope).dropLast < 256 ↔
      1 + (scope.dropLast.map fun t => t.length + 1).sum < 256 := by
    cases scope with
    | nil => simp [brokerScopeTexts]
    | cons t scope =>
      rw [brokerScopeTexts, List.dropLast_cons_of_ne_nil (by simp), textLength_cons,
        ← List.map_dropLast, textLength_map length_append_slash, Nat.zero_add]
      rfl
  rw [← hlen]
  exact inside_calls_iff (by decide) _ (List.cons_ne_nil slashStr _)

/-! ## The three loops -/

/-- **When the buffers are not overrun** — `newscope` by any scope string under any broker scope,
and `brokerscope` by any string the regular expression accepts, after any earlier calls. -/
theorem scope_buffers_iff (scope : List CStr) (scopestr : CStr) :
    ((∀ c ∈ newscopeCalls scope scopestr, c.Inside 128) ↔ NewscopeFits scope scopestr) ∧
    ∀ scope' cs, ddBrokerSetScope scope scopestr = some (scope', cs) →
      ((∀ c ∈ cs, c.Inside 256) ↔ 1 + (scope'.dropLast.map fun t => t.length + 1).sum < 256) := by
  refine ⟨newscope_inside_iff scope scopestr, fun scope' cs h => ?_⟩
  obtain ⟨hits, -, h⟩ := Option.map_eq_some_iff.mp h
  cases h
  exact brokerScope_inside_iff _

/-- `1/22/333` is printed inside. -/
theorem scope_buffers_small : (∀ c ∈ newscopeCalls demoConfig.scope (text "/*/22/"), c.Inside 128) ∧
    ∃ scope' cs, ddBrokerSetScope [] (text "/1/22/333") = some (scope', cs) ∧
      ∀ c ∈ cs, c.Inside 256 := by
  refine ⟨(scope_buffers_iff _ _).1.mpr (Or.inr (by decide)), ?_⟩
  have hset : (ddBrokerSetScope [] (text "/1/22/333")).map Prod.fst =
      some [text "1", text "22", text "333"] := by decide
  obtain ⟨⟨scope', cs⟩, h, rfl⟩ := Option.map_eq_some_iff.mp hset
  exact ⟨_, cs, h, ((scope_buffers_iff _ _).2 _ _ h).mpr (by decide)⟩

/-- A scope string with one long number. -/
def longScope : CStr := CStr.ofBytes (List.replicate 130 49)

/-- **A long number leaves the buffer**, also in a scope string that names no more places than the
broker's scope has. -/
theorem not_scope_buffers : ¬ ∀ (cfg : Config) (scopestr : CStr),
    ∀ c ∈ newscopeCalls cfg.scope scopestr, c.Inside 128 := by
  intro h
  have hout : (newscopeCalls demoConfig.scope longScope).any (128 ≤ ·.off) := by decide +kernel
  obtain ⟨c, hc, hoff⟩ := List.any_eq_true.mp hout
  exact absurd (h demoConfig longScope c hc).off (Nat.not_lt.mpr (of_decide_eq_true hoff))

end DoubleDecker
