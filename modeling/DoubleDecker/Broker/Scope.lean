import DoubleDecker.Broker.PubStrings

/-!
# Broker/Scope — which publications a subscription asks for

A subscription is stored under `tenant.topic/s1/…/sk/`, with the broker's own scope in the places of
the stars, and a publication looks for the prefixes of `tenant.topic/c1/c2/c3/`.  Every component
ends with a slash, so that the one is a prefix of the other just when the topics are the same and
the components agree (`subscription_matches_iff`).
-/

namespace DoubleDecker

variable {H : Type} [DecidableEq H] {env : Env H}

/-! ## Scope texts -/

/-- `/t1/…/tk/`. -/
def scopeText (l : List CStr) : CStr := l.foldl (fun s t => s ++ (slashStr ++ t)) ∅ ++ slashStr

/-- The bytes before the last slash. -/
theorem foldl_scope_bytes (l : List CStr) (s : CStr) :
    (l.foldl (fun s t => s ++ (slashStr ++ t)) s).bytes =
      s.bytes ++ l.flatMap fun t => slash :: t.bytes := by
  induction l generalizing s with
  | nil => simp
  | cons t l ih =>
    rw [List.foldl_cons, ih, List.flatMap_cons, CStr.bytes_append, List.append_assoc]
    rfl

theorem scopeText_bytes (l : List CStr) :
    (scopeText l).bytes = framed slash (l.map CStr.bytes) := by
  rw [scopeText, CStr.bytes_append, foldl_scope_bytes, framed, List.flatMap_map]
  rfl

/-- **The scope of a broker as a text.** -/
theorem Config.brokerScope_eq {cfg : Config} (h : (scopeText cfg.scope).length ≤ 255) :
    cfg.brokerScope = scopeText cfg.scope := by
  have heq : cfg.scope.foldl (fun s t => s ++ t ++ slashStr) slashStr = scopeText cfg.scope := by
    suffices hs : ∀ (l : List CStr) (s : CStr),
        l.foldl (fun s t => s ++ t ++ slashStr) (s ++ slashStr) =
        l.foldl (fun s t => s ++ (slashStr ++ t)) s ++ slashStr from hs cfg.scope ∅
    intro l
    induction l with
    | nil => exact fun s => rfl
    | cons t l ih =>
      intro s
      rw [List.foldl_cons, List.foldl_cons, ← ih, CStr.append_assoc s slashStr t]
  rw [Config.brokerScope, heq, CStr.truncate_of_le h]

/-- The components a subscription asks for: the broker's own in the places of the stars. -/
def expand (scope tokens : List CStr) : List CStr :=
  List.zipWith (fun token t => if token.bytes = [42] then t else token) tokens scope

theorem noscope_nul_free : 0 ∉ CStr.ascii "noscope" := by decide

/-- `noscope`. -/
def noscope : CStr := ⟨CStr.ascii "noscope", noscope_nul_free⟩

/-- The text `s_cb_sub` composes before the last slash. -/
theorem pieces_eq (scope tokens : List CStr) : (List.zipWith (fun token t =>
    if token.bytes = [42] then slashStr ++ t else slashStr ++ token) tokens scope).foldl (· ++ ·)
      (∅ : CStr) ++ slashStr = scopeText (expand scope tokens) := by
  have hmap : List.zipWith (fun token t => if token.bytes = [42] then slashStr ++ t
      else slashStr ++ token) tokens scope = (expand scope tokens).map fun t => slashStr ++ t := by
    rw [expand, List.map_zipWith]
    congr 1
    funext token t
    split <;> rfl
  rw [hmap, List.foldl_map, scopeText]

/-- **What becomes of a scope string** — nothing when it has too many components, or more text than
the buffer holds. -/
theorem newscope_cases {scope : List CStr} {scopestr : CStr} (hscope : scopestr ≠ noscope) :
    newscope scope scopestr =
      if (scopestr.tokens slash).length ≤ scope.length ∧
        (scopeText (expand scope (scopestr.tokens slash))).length ≤ 129 then
        some ((scopeText (expand scope (scopestr.tokens slash))).truncate 127) else none := by
  have hlen := congrArg CStr.length (pieces_eq scope (scopestr.tokens slash))
  rw [CStr.length_append, show slashStr.length = 1 from rfl] at hlen
  unfold newscope
  split
  · next h => exact absurd h hscope
  · simp only [pieces_eq]
    split
    · rw [if_neg (by omega)]
    · split
      · rw [if_neg (by omega)]
      · rw [if_pos (by omega)]

/-- **The scope part of a subscription** — the components of the scope string, expanded. -/
theorem newscope_eq {scope : List CStr} {scopestr : CStr} (hscope : scopestr ≠ noscope)
    (hlen : (scopestr.tokens slash).length ≤ scope.length)
    (hfits : (scopeText (expand scope (scopestr.tokens slash))).length ≤ 127) :
    newscope scope scopestr = some (scopeText (expand scope (scopestr.tokens slash))) := by
  rw [newscope_cases hscope, if_pos ⟨hlen, by omega⟩, CStr.truncate_of_le hfits]

/-! ## The two keys -/

theorem slash_not_mem_tokens {s token : CStr} (h : token ∈ s.tokens slash) :
    slash ∉ token.bytes := by
  obtain ⟨piece, hpiece, rfl⟩ := List.mem_map.mp h
  have hsplit := not_mem_of_mem_splitOn (List.mem_of_mem_filter hpiece)
  exact fun hx => hsplit ((List.takeWhile_sublist _).subset hx)

theorem slash_not_mem_expand {scope tokens : List CStr} (hscope : ∀ t ∈ scope, slash ∉ t.bytes)
    (htokens : ∀ t ∈ tokens, slash ∉ t.bytes) : ∀ t ∈ expand scope tokens, slash ∉ t.bytes := by
  intro t ht
  obtain ⟨i, hi, rfl⟩ := List.mem_iff_getElem.mp ht
  simp only [expand, List.getElem_zipWith]
  split
  · exact hscope _ (List.getElem_mem _)
  · exact htokens _ (List.getElem_mem _)

/-- The scope of a broker has no slashes in its numbers. -/
theorem Config.slash_not_mem_scope (cfg : Config) : ∀ t ∈ cfg.scope, slash ∉ t.bytes := by
  intro t ht hmem
  exact absurd ((cfg.scope_digits t ht).2 slash hmem).1 (by decide)

/-- **The components agree** — a star stands for the subscriber's own. -/
def ScopeAgrees (scope tokens scope' : List CStr) : Prop :=
  ∀ (i : Nat) (hi : i < tokens.length),
    scope'[i]? = if tokens[i].bytes = [42] then scope[i]? else some tokens[i]

theorem expand_prefix_iff {scope tokens scope' : List CStr} (hlen : tokens.length ≤ scope.length) :
    expand scope tokens <+: scope' ↔ ScopeAgrees scope tokens scope' := by
  have hl : (expand scope tokens).length = tokens.length := by
    rw [expand, List.length_zipWith, Nat.min_eq_left hlen]
  have hget : ∀ (i : Nat) (hi : i < tokens.length), some ((expand scope tokens)[i]) =
      if tokens[i].bytes = [42] then scope[i]? else some tokens[i] := by
    intro i hi
    simp only [expand, List.getElem_zipWith, List.getElem?_eq_getElem (Nat.lt_of_lt_of_le hi hlen)]
    split <;> rfl
  rw [List.prefix_iff_getElem?]
  constructor
  · intro h i hi
    rw [← hget i hi, h i (hl.symm ▸ hi)]
  · intro h i hi
    rw [h i (hl ▸ hi), hget i (hl ▸ hi)]

/-- The scope of a broker does not change. -/
theorem Run.scope {cfg : Config} {es : List Event} {self : DdBroker H} (h : Run env cfg es self) :
    self.scope = cfg.scope := by
  induction h with
  | init => rfl
  | step _ _ hs ih => exact (step_frame hs).scope.trans ih

/-- **The key of a subscription.** -/
theorem subRequest_eq {scope : List CStr} {ln : LocalClient} {t scopestr : CStr}
    {rest : List Frame} (ht : t ≠ publicName) (hscope : scopestr ≠ noscope)
    (hlen : (scopestr.tokens slash).length ≤ scope.length)
    (hfits : (scopeText (expand scope (scopestr.tokens slash))).length ≤ 127)
    (hkey : (ln.tenant ++ dotStr ++ t ++
      scopeText (expand scope (scopestr.tokens slash))).length ≤ 255) :
    subRequest scope ln (t.bytes :: scopestr.bytes :: rest) = some (t, scopestr,
      ln.tenant ++ dotStr ++ t ++ scopeText (expand scope (scopestr.tokens slash))) := by
  simp only [subRequest, zmsgPopstr, CStr.ofBytes_bytes, if_neg ht,
    newscope_eq hscope hlen hfits, Option.map_some, subTopic, CStr.truncate_of_le hkey]

omit [DecidableEq H] in
/-- **The key of a publication.** -/
theorem composeTopic_eq {self : DdBroker H} {ln : LocalClient} {u : CStr}
    (hdollar : (36 : UInt8) ∉ u.bytes) (hpub : ¬ u.startsWith publicDot)
    (hkey : (ln.tenant ++ dotStr ++ u ++ self.brokerScope).length ≤ 255) :
    (composeTopic self ln u).2.1 = ln.tenant ++ dotStr ++ u ++ self.brokerScope := by
  have hlast : u.bytes.getLast? ≠ some 36 := fun h => hdollar (List.mem_of_getLast? h)
  have hshort : (u ++ self.brokerScope).length ≤ 255 := by
    refine Nat.le_trans ?_ hkey
    simp only [CStr.length, CStr.bytes_append, List.length_append]
    omega
  rw [composeTopic_pubtopic, if_neg hpub, prefixTopic, if_neg hlast, CStr.truncate_of_le hshort,
    joined, ← CStr.append_assoc, CStr.truncate_of_le hkey]

/-- **Topics and scopes compare one by one.** -/
theorem key_prefix_iff {tenant t u : CStr} {l m : List CStr} (ht : slash ∉ t.bytes)
    (hu : slash ∉ u.bytes) (hl : ∀ a ∈ l, slash ∉ a.bytes) (hm : ∀ a ∈ m, slash ∉ a.bytes) :
    (tenant ++ dotStr ++ t ++ scopeText l).bytes <+: (tenant ++ dotStr ++ u ++ scopeText m).bytes ↔
      t = u ∧ l <+: m := by
  obtain ⟨r, hr⟩ := exists_framed slash (l.map CStr.bytes)
  obtain ⟨r', hr'⟩ := exists_framed slash (m.map CStr.bytes)
  have hframes := framed_prefix_iff (c := slash) (l := l.map CStr.bytes) (m := m.map CStr.bytes)
    (fun a ha => by obtain ⟨x, hx, rfl⟩ := List.mem_map.mp ha; exact hl x hx)
    fun a ha => by obtain ⟨x, hx, rfl⟩ := List.mem_map.mp ha; exact hm x hx
  rw [hr, hr', List.cons_prefix_cons] at hframes
  have hbytes : ∀ a b : CStr, a.bytes = b.bytes → a = b := fun a b => CStr.ext
  simp only [CStr.bytes_append, scopeText_bytes, List.append_assoc, List.prefix_append_right_inj,
    hr, hr', CStr.append_cons_prefix_iff ht hu]
  constructor
  · rintro ⟨htu, hrest⟩
    refine ⟨CStr.ext htu, ?_⟩
    exact (List.prefix_map_iff_of_injective hbytes).mp (hframes.mp ⟨rfl, hrest⟩)
  · rintro ⟨rfl, hlm⟩
    exact ⟨rfl, (hframes.mpr (hlm.map _)).2⟩

/-- **A publication is one a subscription asks for just when the topics are the same and the scopes
agree.** -/
theorem subscription_matches_iff {cfg cfg' : Config} {b b' : DdBroker H}
    (hb : Reachable env cfg b) (hb' : Reachable env cfg' b') {source cookie : Frame}
    {ln ln' : LocalClient} {t u scopestr : CStr} {rest : List Frame}
    (hln : acceptedFor env b source cookie = some ln) (htenant : ln'.tenant = ln.tenant)
    (ht : slash ∉ t.bytes) (htpub : t ≠ publicName) (hu : slash ∉ u.bytes)
    (hdollar : (36 : UInt8) ∉ u.bytes) (hupub : ¬ u.startsWith publicDot)
    (hscope : scopestr ≠ noscope) (hk : (scopestr.tokens slash).length ≤ 3)
    (hfits : (scopeText (expand cfg.scope (scopestr.tokens slash))).length ≤ 127)
    (hkey : (ln.tenant ++ dotStr ++ t ++
      scopeText (expand cfg.scope (scopestr.tokens slash))).length ≤ 255)
    (hkey' : (ln.tenant ++ dotStr ++ u ++ scopeText cfg'.scope).length ≤ 255) :
    ∃ key, request env b (.router (source :: ddMsg .sub
        (cookie :: t.bytes :: scopestr.bytes :: rest))) = .sub ln source key ∧
      (key.bytes <+: (composeTopic b' ln' u).2.1.bytes ↔
        t = u ∧ ScopeAgrees cfg.scope (scopestr.tokens slash) cfg'.scope) := by
  obtain ⟨es, hb⟩ := hb
  obtain ⟨es', hb'⟩ := hb'
  have hlen : (scopestr.tokens slash).length ≤ cfg.scope.length := cfg.scope_length ▸ hk
  have hbs : b'.brokerScope = scopeText cfg'.scope := by
    refine hb'.brokerScope.trans (Config.brokerScope_eq (Nat.le_trans ?_ hkey'))
    simp only [CStr.length, CStr.bytes_append, List.length_append]
    omega
  have hpub : (composeTopic b' ln' u).2.1 = ln.tenant ++ dotStr ++ u ++ scopeText cfg'.scope := by
    rw [← htenant, ← hbs] at hkey' ⊢
    exact composeTopic_eq hdollar hupub hkey'
  refine ⟨ln.tenant ++ dotStr ++ t ++ scopeText (expand cfg.scope (scopestr.tokens slash)), ?_, ?_⟩
  · simp only [request, routerCmd_ddMsg, routerRequest, hln, hb.scope,
      subRequest_eq htpub hscope hlen hfits hkey]
  · rw [hpub, key_prefix_iff ht hu (slash_not_mem_expand cfg.slash_not_mem_scope fun _ =>
      slash_not_mem_tokens) cfg'.slash_not_mem_scope, expand_prefix_iff hlen]

/-- The local client of `headRun`. -/
def headClient : LocalClient := ⟨text "x", text "a.x", text "a", cookieOf 65, [1, 2, 3, 4, 5]⟩

theorem headRun_accepts : (runEvents plainEnv (ddBrokerNew _ demoConfig) headRun).map
    (fun b => acceptedFor plainEnv b [1, 2, 3, 4, 5] (cookieOf 65).1) = some (some headClient) := by
  decide

/-- A subscription to the publisher's own cluster. -/
theorem subscription_matches_cluster : ∃ b : DdBroker (List UInt8),
    Reachable plainEnv demoConfig b ∧ ∃ key,
      request plainEnv b (.router ([1, 2, 3, 4, 5] :: ddMsg .sub
        [(cookieOf 65).1, CStr.ascii "y", CStr.ascii "/1/*/"])) =
          .sub headClient [1, 2, 3, 4, 5] key ∧
      (key.bytes <+: (composeTopic b headClient (text "y")).2.1.bytes ↔ text "y" = text "y" ∧
        ScopeAgrees demoConfig.scope ((text "/1/*/").tokens slash) demoConfig.scope) := by
  obtain ⟨b, hb, hacc⟩ := Option.map_eq_some_iff.mp headRun_accepts
  have hreach : Reachable plainEnv demoConfig b := ⟨headRun, .of_runEvents hb⟩
  exact ⟨b, hreach, @subscription_matches_iff _ _ _ _ _ _ _ hreach hreach _ _ _ headClient
    (text "y") (text "y") (text "/1/*/") [] hacc rfl (by decide) (by decide) (by decide) (by decide)
    (by decide) (by decide) (by decide) (by decide) (by decide) (by decide)⟩

/-- **`noscope` is not a scope**: the topic alone is stored, and every topic that begins with it
matches. -/
theorem not_subscription_matches_iff : ¬ ∀ (H : Type) [DecidableEq H] (env : Env H)
    (cfg cfg' : Config) (b b' : DdBroker H), Reachable env cfg b → Reachable env cfg' b' →
    ∀ (source cookie : Frame) (ln ln' : LocalClient) (t u scopestr : CStr) (rest : List Frame),
    acceptedFor env b source cookie = some ln → ln'.tenant = ln.tenant → dot ∉ ln.tenant.bytes →
    slash ∉ t.bytes → (36 : UInt8) ∉ t.bytes → t ≠ publicName → slash ∉ u.bytes →
    (36 : UInt8) ∉ u.bytes → ¬ u.startsWith publicDot → (scopestr.tokens slash).length ≤ 3 →
    (scopeText (expand cfg.scope (scopestr.tokens slash))).length ≤ 127 →
    (ln.tenant ++ dotStr ++ t ++
      scopeText (expand cfg.scope (scopestr.tokens slash))).length ≤ 255 →
    (ln.tenant ++ dotStr ++ u ++ scopeText cfg'.scope).length ≤ 255 →
    ∃ key, request env b (.router (source :: ddMsg .sub
        (cookie :: t.bytes :: scopestr.bytes :: rest))) = .sub ln source key ∧
      (key.bytes <+: (composeTopic b' ln' u).2.1.bytes ↔
        t = u ∧ ScopeAgrees cfg.scope (scopestr.tokens slash) cfg'.scope) := by
  intro hall
  obtain ⟨b, hb, hacc⟩ := Option.map_eq_some_iff.mp headRun_accepts
  have hrun := Run.of_runEvents hb
  obtain ⟨key, hreq, hiff⟩ := hall _ plainEnv demoConfig demoConfig b b ⟨headRun, hrun⟩
    ⟨headRun, hrun⟩ [1, 2, 3, 4, 5] (cookieOf 65).1 headClient headClient (text "y") (text "yes")
    noscope [] hacc rfl (by decide) (by decide) (by decide) (by decide) (by decide) (by decide)
    (by decide) (by decide) (by decide) (by decide) (by decide)
  simp only [request, routerCmd_ddMsg, routerRequest, hacc, hrun.scope] at hreq
  have hkey : key = text "a.y" := by
    rw [show subRequest demoConfig.scope headClient [(text "y").bytes, noscope.bytes] =
      some (text "y", noscope, text "a.y") by decide] at hreq
    exact (Request.sub.inj hreq).2.2.symm
  have hpub : (composeTopic b headClient (text "yes")).2.1 = text "a.yes/1/2/3/" := by
    have hbs : b.brokerScope = text "/1/2/3/" := hrun.brokerScope.trans (by decide)
    rw [composeTopic_eq (by decide) (by decide) (by rw [hbs]; decide), hbs]
    decide
  rw [hkey, hpub] at hiff
  exact absurd (hiff.mp (by decide)).1 (by decide)

end DoubleDecker
