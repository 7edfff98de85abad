import DoubleDecker.Broker.Publications

/-!
# Broker/Restored — the string of a relayed publication

    dot = strchr(pubtopic, '.') + 1;  slash = strchr(dot, '/');  if (slash) *slash = '\0';
    …  *slash = '/';

`s_on_subN_msg` and `s_on_subS_msg` cut the composed topic in place to hand the topic to their local
clients, and put the slash back before they pass the string on.  Both are done when some client
matches, and only the first write looks whether there is a slash.
-/

namespace DoubleDecker

open Trie

variable {H : Type} [DecidableEq H] {env : Env H}

/-! ## The memory of a string -/

/-- `strchr(mem + i, c)`: the place of the first `c` in the string that starts there. -/
def strchr (mem : List UInt8) (i : Nat) (c : UInt8) : Option Nat :=
  let s := (mem.drop i).takeWhile (· != 0)
  if c ∈ s then some (i + s.idxOf c) else none

/-- What the handlers do to the memory of `pubtopic`: the text they send to the local clients, and
the memory after `*slash = '/'`.  Without a dot `strchr` reads at the address 1, without a slash
behind it the last write goes through `NULL`. -/
def deliverTopic (mem : List UInt8) : Option (CStr × Option (List UInt8)) :=
  match strchr mem 0 dot with
  | none => none
  | some d =>
    match strchr mem (d + 1) slash with
    | none => some (CStr.ofBytes (mem.drop (d + 1)), none)
    | some i =>
      let cut := mem.set i 0
      some (CStr.ofBytes (cut.drop (d + 1)), some (cut.set i slash))

section

variable {mem l r : List UInt8} {i : Nat} {c : UInt8}

theorem takeWhile_nul (hl : 0 ∉ l) : (l ++ 0 :: r).takeWhile (· != 0) = l :=
  CStr.takeWhile_append_cons hl

/-- A string that is not there. -/
theorem strchr_eq_none (hmem : mem.drop i = l ++ 0 :: r) (hl : 0 ∉ l) (hc : c ∉ l) :
    strchr mem i c = none := by
  simp only [strchr, hmem, takeWhile_nul hl, hc, if_false]

/-- The first `c` of a string. -/
theorem strchr_eq_some {m : List UInt8} (hmem : mem.drop i = l ++ c :: m ++ 0 :: r)
    (hnul : 0 ∉ l ++ c :: m) (hc : c ∉ l) : strchr mem i c = some (i + l.length) := by
  have hin : c ∈ l ++ c :: m := by simp
  simp only [strchr, hmem, takeWhile_nul hnul, hin, if_true]
  rw [List.idxOf_append_of_notMem hc, List.idxOf_cons_self, Nat.add_zero]

end

/-- **The slash is put back where there is one** — behind the first dot. -/
theorem deliverTopic_memory (s : CStr) : deliverTopic (s.bytes ++ [0]) =
    match s.after dot with
    | none => none
    | some t => some (t.before slash, if slash ∈ t.bytes then some (s.bytes ++ [0]) else none) := by
  unfold deliverTopic
  cases hafter : s.after dot with
  | none =>
    have hdot : dot ∉ s.bytes := fun hmem => by
      rw [CStr.after, if_pos hmem] at hafter
      cases hafter
    rw [strchr_eq_none (l := s.bytes) (r := []) rfl s.nul_free hdot]
  | some t =>
    obtain ⟨p, hp, hfirst⟩ : ∃ p, s.bytes = p ++ dot :: t.bytes ∧ dot ∉ p :=
      ⟨_, CStr.exists_of_after hafter, fun hmem => by simpa using List.mem_takeWhile_imp hmem⟩
    have hnul : 0 ∉ p ++ dot :: t.bytes := hp ▸ s.nul_free
    have hdrop : ∀ m, (p ++ dot :: m).drop (p.length + 1) = m := fun m => by simp
    rw [hp, strchr_eq_some (r := []) rfl hnul hfirst, Nat.zero_add, List.append_assoc,
      List.cons_append]
    by_cases hslash : slash ∈ t.bytes
    · obtain ⟨u, v, ht, hu⟩ := List.eq_append_cons_of_mem hslash
      have hunul : 0 ∉ u := fun h => t.nul_free (ht ▸ List.mem_append_left _ h)
      have hplace : strchr (p ++ dot :: (t.bytes ++ [0])) (p.length + 1) slash =
          some (p.length + 1 + u.length) :=
        strchr_eq_some ((hdrop _).trans (by rw [ht])) (ht ▸ t.nul_free) hu
      have hmem : p ++ dot :: (t.bytes ++ [0]) = (p ++ dot :: u) ++ slash :: (v ++ [0]) := by
        rw [ht, List.append_assoc, List.append_assoc, List.cons_append, List.cons_append]
      have hlen : p.length + 1 + u.length = (p ++ dot :: u).length := by
        rw [List.length_append, List.length_cons]
        omega
      have hset : ∀ a b : UInt8,
          ((p ++ dot :: u) ++ a :: (v ++ [0])).set (p.length + 1 + u.length) b =
            (p ++ dot :: u) ++ b :: (v ++ [0]) := fun a b => by
        rw [hlen, List.set_append_right] <;> simp
      simp only [hplace, if_pos hslash]
      rw [hmem, hset, hset, List.append_assoc, List.cons_append, hdrop]
      have htext : CStr.ofBytes (u ++ 0 :: (v ++ [0])) = t.before slash := by
        refine CStr.ext ?_
        rw [CStr.bytes_before, ht, CStr.takeWhile_append_cons hu]
        exact takeWhile_nul hunul
      rw [htext]
    · have hnone : strchr (p ++ dot :: (t.bytes ++ [0])) (p.length + 1) slash = none :=
        strchr_eq_none (hdrop _) t.nul_free hslash
      have htext : CStr.ofBytes (t.bytes ++ [0]) = t.before slash := by
        refine CStr.ext ?_
        rw [CStr.bytes_before]
        refine (takeWhile_nul t.nul_free).trans (List.takeWhile_eq_self_iff.mpr fun x hx => ?_).symm
        simpa using fun h : x = slash => hslash (h ▸ hx)
      simp only [hnone, if_neg hslash, hdrop, htext]

/-- The memory is as it was and nothing went wrong just when the topic stands in the string. -/
theorem deliverTopic_eq_some_iff {s topic : CStr} {mem : List UInt8} :
    deliverTopic (s.bytes ++ [0]) = some (topic, some mem) ↔
      Cuts s topic ∧ mem = s.bytes ++ [0] := by
  rw [deliverTopic_memory]
  constructor
  · intro h
    cases hafter : s.after dot with
    | none => simp [hafter] at h
    | some t =>
      simp only [hafter, Option.some.injEq, Prod.mk.injEq, Option.ite_none_right_eq_some] at h
      obtain ⟨rfl, hslash, rfl⟩ := h
      exact ⟨cuts_of_after hafter hslash, rfl⟩
  · rintro ⟨hcuts, rfl⟩
    obtain ⟨t, hafter, rfl, hslash⟩ := hcuts.after
    simp only [hafter, if_pos hslash]

omit [DecidableEq H] in
/-- **The delivery is what is done to the memory.** -/
theorem pubRemotely_eq_deliverTopic (b : DdBroker H) (pubtopic name : CStr) (msg : List Frame) :
    pubRemotely b pubtopic name msg =
      match nnTrieTree b.topicsTrie pubtopic.bytes with
      | none => .fault []
      | some none => .done b []
      | some (some socks) =>
        match deliverTopic (pubtopic.bytes ++ [0]) with
        | none => .fault []
        | some (topic, none) => .fault (pubLocally (some socks) name topic msg)
        | some (topic, some _) => .done b (pubLocally (some socks) name topic msg) := by
  unfold pubRemotely
  rw [deliverTopic_memory]
  rcases nnTrieTree b.topicsTrie pubtopic.bytes with _ | _ | socks
  · rfl
  · rfl
  · cases pubtopic.after dot with
    | none => rfl
    | some t => by_cases hslash : slash ∈ t.bytes <;> simp [hslash]

/-! ## The topics with a slash -/

/-- What stands behind the first dot. -/
def behindDot (l : List UInt8) : List UInt8 := (l.dropWhile (· != dot)).tail

/-- A topic stands in a string with a slash behind its first dot. -/
theorem exists_cuts_iff {s : CStr} : (∃ topic, Cuts s topic) ↔ slash ∈ behindDot s.bytes := by
  constructor
  · rintro ⟨topic, p, r, hp, hdot, -⟩
    rw [behindDot, hp, CStr.dropWhile_append_cons hdot]
    simp
  · intro h
    by_cases hdot : dot ∈ s.bytes
    · obtain ⟨u, v, hs, hu⟩ := List.eq_append_cons_of_mem hdot
      rw [behindDot, hs, CStr.dropWhile_append_cons hu] at h
      exact exists_cuts hs h
    · rw [behindDot, List.dropWhile_eq_nil_iff.mpr fun x hx => ?_] at h
      · exact absurd h List.not_mem_nil
      · simpa using fun heq : x = dot => hdot (heq ▸ hx)

/-- The composed topic before the scope is printed behind it. -/
def unscoped (tenant topic : CStr) : CStr :=
  if topic.startsWith publicDot then localTopic topic else tenant ++ dotStr ++ localTopic topic

/-- **The publications whose string is restored** — the slash of the scope fits the buffer, or the
text before it has a slash of its own behind its first dot.  A public topic that ends in `$` is not
printed into a buffer. -/
def SlashFollows (tenant topic : CStr) : Prop :=
  if topic.bytes.getLast? = some 36 then
    if topic.startsWith publicDot then slash ∈ behindDot (unscoped tenant topic).bytes
    else slash ∈ behindDot ((unscoped tenant topic).bytes.take 255)
  else (unscoped tenant topic).length < 255 ∨
    slash ∈ behindDot ((unscoped tenant topic).bytes.take 255)

instance (tenant topic : CStr) : Decidable (SlashFollows tenant topic) :=
  inferInstanceAs (Decidable (ite _ (ite _ _ _) (_ ∨ _)))

/-- The first 255 bytes of a text with the scope behind it. -/
theorem slash_mem_behindDot_take {whole : CStr} {r : List UInt8} (hdot : dot ∈ whole.bytes) :
    slash ∈ behindDot ((whole.bytes ++ slash :: r).take 255) ↔
      whole.length < 255 ∨ slash ∈ behindDot (whole.bytes.take 255) := by
  by_cases hlen : whole.length < 255
  · obtain ⟨u, v, hw, hu⟩ := List.eq_append_cons_of_mem hdot
    obtain ⟨n, hn⟩ : ∃ n, 255 - whole.bytes.length = n + 1 :=
      ⟨254 - whole.bytes.length, by rw [CStr.length] at hlen; omega⟩
    refine iff_of_true ?_ (Or.inl hlen)
    rw [List.take_append, List.take_of_length_le (Nat.le_of_lt hlen), hn, List.take_succ_cons, hw,
      behindDot, List.append_assoc, List.cons_append, CStr.dropWhile_append_cons hu]
    simp
  · rw [List.take_append_of_le_length (Nat.le_of_not_lt hlen)]
    exact ⟨Or.inr, fun h => h.resolve_left hlen⟩

omit [DecidableEq H] in
/-- **The composed topic has its slash** for these publications. -/
theorem exists_cuts_composeTopic_iff {b : DdBroker H} {ln : LocalClient} {topic : CStr}
    {r : List UInt8} (hscope : b.brokerScope.bytes = slash :: r) :
    (∃ t, Cuts (composeTopic b ln topic).2.1 t) ↔ SlashFollows ln.tenant topic := by
  rw [exists_cuts_iff, composeTopic_pubtopic, SlashFollows]
  by_cases hend : topic.bytes.getLast? = some 36
  · rw [if_pos hend, localTopic_exact hend, unscoped]
    split
    · rfl
    · rfl
  · have hwhole : (if topic.startsWith publicDot then prefixTopic b.brokerScope topic
        else joined 255 ln.tenant (prefixTopic b.brokerScope topic)).bytes =
        ((unscoped ln.tenant topic).bytes ++ slash :: r).take 255 := by
      rw [unscoped, localTopic_plain hend]
      split
      · exact prefixTopic_plain hscope hend
      · -- the inner buffer cuts nothing off that the outer one would not
        have htake : ∀ a x : List UInt8, (a ++ x.take 255).take 255 = (a ++ x).take 255 :=
          fun a x => by
            rw [List.take_append, List.take_append, List.take_take,
              Nat.min_eq_left (Nat.sub_le _ _)]
        rw [joined, CStr.bytes_truncate, CStr.bytes_append, prefixTopic_plain hscope hend, htake,
          CStr.bytes_append _ topic, List.append_assoc]
    rw [if_neg hend, hwhole]
    refine slash_mem_behindDot_take ?_
    rw [unscoped, localTopic_plain hend]
    split
    · next hpub =>
      obtain ⟨t, ht⟩ := CStr.startsWith_iff.mp hpub
      rw [← ht]
      exact List.mem_append_left _ (by decide)
    · simp [dotStr, dot]

/-! ## The publication at the other brokers -/

/-- **The events a publication comes in** — at the brokers above and below the publisher's, and at
any broker one of them passes it on to. -/
inductive Arrives (env : Env H) (o : Outcome H) : Event → Prop
  | north {m : List Frame} : .pubN m ∈ o.sends → Arrives env o (.subS m)
  | south {m : List Frame} : .pubS m ∈ o.sends → Arrives env o (.subN m)
  | up {b : DdBroker H} {e : Event} {m : List Frame} : Arrives env o e →
      .pubN m ∈ (step env b e).sends → Arrives env o (.subS m)
  | down {b : DdBroker H} {e : Event} {m : List Frame} : Arrives env o e →
      .pubS m ∈ (step env b e).sends → Arrives env o (.subN m)

/-- The event brings a publication with these strings, from above or from below. -/
def Brings (e : Event) (pubtopic name : CStr) (payload : List Frame) : Prop :=
  ∃ pathv, e = .subN (pubtopic.bytes :: name.bytes :: pathv :: payload) ∨
    e = .subS (pubtopic.bytes :: name.bytes :: pathv :: payload)

section

variable {b : DdBroker H} {e : Event} {pubtopic name : CStr} {payload m : List Frame}

/-- What a broker passes on has the strings it received. -/
theorem Brings.passed (h : Brings e pubtopic name payload)
    (hm : .pubN m ∈ (step env b e).sends ∨ .pubS m ∈ (step env b e).sends) :
    ∃ pathv, m = pubtopic.bytes :: name.bytes :: pathv :: payload := by
  obtain ⟨x, hxm, hx⟩ : ∃ x, (x = .pubN m ∨ x = .pubS m) ∧ x ∈ (step env b e).sends :=
    hm.elim (fun h => ⟨_, Or.inl rfl, h⟩) fun h => ⟨_, Or.inr rfl, h⟩
  obtain ⟨pathv, rfl | rfl⟩ := h
  · rw [step] at hx
    obtain ⟨_, _, _, hmsg, hrelay | ⟨_, _, -, hx⟩⟩ := sOnSubNMsg_sends hx
    · cases hmsg
      rw [CStr.ofBytes_bytes, CStr.ofBytes_bytes] at hrelay
      exact relays_msg hxm hrelay
    · exact absurd hx (not_mem_pubLocally hxm)
  · rw [step] at hx
    obtain ⟨_, _, _, hmsg, hrelay | ⟨_, _, -, hx⟩⟩ := sOnSubSMsg_sends hx
    · cases hmsg
      rw [CStr.ofBytes_bytes, CStr.ofBytes_bytes] at hrelay
      exact relays_msg hxm hrelay
    · exact absurd hx (not_mem_pubLocally hxm)

/-- **What arrives anywhere** has the strings the publisher's broker composed. -/
theorem Arrives.brings {o : Outcome H} (h : Arrives env o e)
    (ho : ∀ x ∈ o.sends, ∀ m, x = .pubN m ∨ x = .pubS m → x.Relays pubtopic name payload) :
    Brings e pubtopic name payload := by
  induction h with
  | north hm =>
    obtain ⟨pathv, rfl⟩ := relays_msg (Or.inl rfl) (ho _ hm _ (Or.inl rfl))
    exact ⟨pathv, Or.inr rfl⟩
  | south hm =>
    obtain ⟨pathv, rfl⟩ := relays_msg (Or.inr rfl) (ho _ hm _ (Or.inr rfl))
    exact ⟨pathv, Or.inl rfl⟩
  | up _ hm ih =>
    obtain ⟨pathv, rfl⟩ := ih.passed (Or.inl hm)
    exact ⟨pathv, Or.inr rfl⟩
  | down _ hm ih =>
    obtain ⟨pathv, rfl⟩ := ih.passed (Or.inr hm)
    exact ⟨pathv, Or.inl rfl⟩

end

/-- **A broker restores the string** — the memory of the topic it looked up and handed on is the
same afterwards, and what it passes on starts with the bytes it received. -/
structure Restores (env : Env H) (b : DdBroker H) (e : Event) (pubtopic : Frame) : Prop where
  memory : ∀ topic socks, lookedUp env b e = some topic →
    nnTrieTree b.topicsTrie topic.bytes = some (some socks) →
    ∃ text, deliverTopic (pubtopic ++ [0]) = some (text, some (pubtopic ++ [0]))
  passed : ∀ m, .pubN m ∈ (step env b e).sends ∨ .pubS m ∈ (step env b e).sends →
    m.head? = some pubtopic

variable (env) in
/-- **Every broker restores the string of the publication**: whatever its local clients subscribed
to, when it receives the publication. -/
def RestoredEverywhere (o : Outcome H) : Prop :=
  ∀ e pubtopic rest, Arrives env o e →
    (e = .subN (pubtopic :: rest) ∨ e = .subS (pubtopic :: rest)) →
    ∀ (cfg : Config) (b : DdBroker H), Reachable env cfg b → e.enabled b →
      Restores env b e pubtopic

/-- **A lower broker with a subscriber** to all topics of a tenant. -/
theorem exists_lower_subscriber (env : Env H) {tenant : CStr} (hfits : tenant.length < 255) :
    ∃ b : DdBroker H, Reachable env (tenantConfig true tenant) b ∧ b.connectedN ∧
      b.brokerId ≠ some [] ∧ Shaped b.topicsTrie ∧
        [1] ∈ held b.topicsTrie (tenant ++ dotStr).bytes := by
  obtain ⟨b, ⟨es, hrun⟩, hdsock, hid, hshaped, hheld⟩ := exists_subscriber env true hfits
  -- the higher broker sends the endpoints of its publications
  have hregok : step env b (.dealer (ddMsg .regok [[], [], []])) =
      sCbRegok { b with timeout := 0 } [[], [], []] := by
    simp [step, sOnDealerMsg, ddMsg, onDealerCmd]
  have henabled : (Event.dealer (ddMsg .regok [[], [], []])).enabled b := hdsock
  refine ⟨_, ⟨_, .step hrun henabled hregok⟩, Bool.or_true _, ?_, hshaped, hheld⟩
  show b.brokerId ≠ some []
  rw [hid]
  decide

/-- A publication is restored everywhere just when a topic stands in its composed string. -/
theorem restoredEverywhere_iff_cuts {cfg : Config} {es : List Event} {self : DdBroker H}
    (hrun : Run env cfg es self) {source cookie topicFrame : Frame} {ln : LocalClient}
    (hln : hashtableHasLocalNode env self source cookie = some (some ln)) {rest : List Frame}
    (haccepted : (sCbPub env self source cookie (topicFrame :: rest)).sends ≠ []) :
    RestoredEverywhere env (sCbPub env self source cookie (topicFrame :: rest)) ↔
      ∃ t, Cuts (composeTopic self ln (CStr.ofBytes topicFrame)).2.1 t := by
  set topic := CStr.ofBytes topicFrame with htopic
  have hfits : ln.tenant.length < 255 := hrun.tenant_fits ln (Lfht.mem_of_lookup hln)
  have hsends : ∀ x ∈ (sCbPub env self source cookie (topicFrame :: rest)).sends, ∀ m,
      x = .pubN m ∨ x = .pubS m →
      x.Relays (composeTopic self ln topic).2.1 (composeTopic self ln topic).2.2
        (zmsgPop rest).2 := by
    intro x hx m hxm
    obtain ⟨ln', _, _, _, _, _, hm, -, hln', hcomp, hrelay | ⟨socks, -, hx⟩⟩ := sCbPub_sends hx
    · cases hm
      rw [hln] at hln'
      cases hln'
      rwa [hcomp]
    · exact absurd hx (not_mem_pubLocally hxm)
  constructor
  · intro hall
    obtain ⟨_, _, _, hm⟩ := exists_south haccepted
    obtain ⟨pathv, hm'⟩ := relays_msg (Or.inr rfl) (hsends _ hm _ (Or.inr rfl))
    have hfits' : (topicTenant ln topic).length < 255 := by
      unfold topicTenant
      split
      · decide
      · exact hfits
    obtain ⟨b, hb, hconn, hid, hshaped, hheld⟩ := exists_lower_subscriber env hfits'
    obtain ⟨l, hl, -, hmem, -⟩ := nnTrieTree_spec hshaped (composeTopic self ln topic).2.1.nul_free
    have hsub : [1] ∈ l.getD [] := (hmem [1]).mpr ⟨_, owned_composeTopic self topic hfits, hheld⟩
    cases l with
    | none => exact absurd hsub List.not_mem_nil
    | some socks =>
      obtain ⟨rfl, rfl, rfl, -⟩ : _ ∧ _ ∧ _ ∧ _ := by simpa using hm'
      have hrestores := hall _ _ _ (.south hm) (Or.inl rfl) _ b hb hconn
      obtain ⟨text, htext⟩ := hrestores.memory _ socks (lookedUp_subN hid) hl
      exact ⟨text, (deliverTopic_eq_some_iff.mp htext).1⟩
  · rintro ⟨text, hcuts⟩ e pubtopic rest' he hshape cfg' b hb -
    have hbrings := he.brings hsends
    have hpub : pubtopic = (composeTopic self ln topic).2.1.bytes := by
      obtain ⟨pathv, rfl | rfl⟩ := hbrings <;> obtain h | h := hshape <;> cases h <;> rfl
    subst hpub
    refine ⟨fun topic' socks _ _ => ⟨text, deliverTopic_eq_some_iff.mpr ⟨hcuts, rfl⟩⟩,
      fun m hm => ?_⟩
    obtain ⟨pathv, rfl⟩ := hbrings.passed hm
    rfl

/-- **Which publications are restored** — for every publisher and every topic that `s_cb_pub`
accepts: no broker of the tree writes through a pointer that is not there, and each passes on the
string it received, just when a slash follows the first dot of the composed topic. -/
theorem restoredEverywhere_iff {cfg : Config} {es : List Event} {self : DdBroker H}
    (hrun : Run env cfg es self) {source cookie topicFrame : Frame} {ln : LocalClient}
    (hln : hashtableHasLocalNode env self source cookie = some (some ln)) {rest : List Frame}
    (haccepted : (sCbPub env self source cookie (topicFrame :: rest)).sends ≠ []) :
    RestoredEverywhere env (sCbPub env self source cookie (topicFrame :: rest)) ↔
      SlashFollows ln.tenant (CStr.ofBytes topicFrame) := by
  obtain ⟨r, hscope⟩ := cfg.brokerScope_bytes
  rw [← hrun.brokerScope] at hscope
  exact (restoredEverywhere_iff_cuts hrun hln haccepted).trans (exists_cuts_composeTopic_iff hscope)

/-! ### A topic without a scope -/

/-- The topic `y` of the tenant `a` is restored. -/
theorem restoredEverywhere_y : ∃ self, Run plainEnv demoConfig headRun self ∧
    RestoredEverywhere plainEnv
      (sCbPub plainEnv self [1, 2, 3, 4, 5] (cookieOf 65).1 [CStr.ascii "y", []]) := by
  obtain ⟨self, hself, hpair⟩ :=
    Option.map_eq_some_iff.mp (headRun_publishes (CStr.ascii "y") (Or.inl rfl))
  obtain ⟨hln, hsends⟩ := Prod.mk.inj hpair
  have hrun : Run plainEnv demoConfig headRun self := .of_runEvents hself
  exact ⟨self, hrun, (restoredEverywhere_iff hrun hln (of_decide_eq_false hsends)).mpr (by decide)⟩

/-- **Not every publication is restored**: for `y$` the composed topic is `a.y`. -/
theorem not_restoredEverywhere : ¬ ∀ (H : Type) [DecidableEq H] (env : Env H) (cfg : Config)
    (es : List Event) (self : DdBroker H), Run env cfg es self →
    ∀ (source cookie topicFrame : Frame) (ln : LocalClient) (rest : List Frame),
    hashtableHasLocalNode env self source cookie = some (some ln) →
    (sCbPub env self source cookie (topicFrame :: rest)).sends ≠ [] →
    RestoredEverywhere env (sCbPub env self source cookie (topicFrame :: rest)) := by
  intro hall
  obtain ⟨self, hself, hpair⟩ :=
    Option.map_eq_some_iff.mp (headRun_publishes (CStr.ascii "y$") (Or.inr (Or.inr rfl)))
  obtain ⟨hln, hsends⟩ := Prod.mk.inj hpair
  have hrun : Run plainEnv demoConfig headRun self := .of_runEvents hself
  have hsent := of_decide_eq_false hsends
  have hrestored := hall _ plainEnv demoConfig headRun self hrun _ _ _ _ _ hln hsent
  obtain ⟨r, hscope⟩ := demoConfig.brokerScope_bytes
  rw [← hrun.brokerScope] at hscope
  have hslash := (exists_cuts_composeTopic_iff hscope).mp
    ((restoredEverywhere_iff_cuts hrun hln hsent).mp hrestored)
  exact absurd hslash (by decide)

end DoubleDecker
