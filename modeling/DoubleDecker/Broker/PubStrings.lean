import DoubleDecker.Broker.Isolation

/-!
# Broker/PubStrings — the strings of a publication

A subscriber on the publisher's broker is handed the topic the client wrote; on any other broker the
topic is cut out of the composed string, between its first dot and the first slash after it.
`transparent_iff`: for which tenants and topics the two are the same.
-/

namespace DoubleDecker

open Trie

variable {H : Type} [DecidableEq H] {env : Env H}

/-! ## Cutting the composed string -/

/-- **The topic stands in the composed string** — between the first dot and the first slash after
it. -/
def Cuts (pubtopic topic : CStr) : Prop :=
  ∃ p r, pubtopic.bytes = p ++ dot :: (topic.bytes ++ slash :: r) ∧ dot ∉ p ∧ slash ∉ topic.bytes

theorem slash_not_mem_before (s : CStr) : slash ∉ (s.before slash).bytes := by
  intro h
  simpa using List.mem_takeWhile_imp h

/-- What stands between the first dot and the first slash after it. -/
theorem cuts_of_after {s rest : CStr} (hrest : s.after dot = some rest)
    (hslash : slash ∈ rest.bytes) :
    Cuts s (rest.before slash) := by
  obtain ⟨r, hr⟩ : ∃ r, rest.after slash = some r := ⟨_, if_pos hslash⟩
  refine ⟨(s.before dot).bytes, r.bytes, ?_, ?_, slash_not_mem_before rest⟩
  · rw [← CStr.exists_of_after hr]
    exact CStr.exists_of_after hrest
  · intro hdot
    simpa using List.mem_takeWhile_imp hdot

/-- Where the topic stands the handlers find it. -/
theorem Cuts.after {s topic : CStr} (h : Cuts s topic) :
    ∃ rest, s.after dot = some rest ∧ rest.before slash = topic ∧ slash ∈ rest.bytes := by
  obtain ⟨p, r, hp, hdot, hslash⟩ := h
  have hnul : 0 ∉ p ++ dot :: (topic.bytes ++ slash :: r) := hp ▸ s.nul_free
  simp only [List.mem_append, List.mem_cons, not_or] at hnul
  set rest : CStr := ⟨topic.bytes ++ slash :: r, by
    simp only [List.mem_append, List.mem_cons, not_or]
    exact hnul.2.2⟩ with hrest
  exact ⟨rest, CStr.after_append (t := ⟨p, hnul.1⟩) hdot hp, CStr.before_append hslash rfl,
    by simp [hrest]⟩

omit [DecidableEq H] in
/-- **`pub_remotely` hands on the topic** that stands in the composed string. -/
theorem pubRemotely_eq_done {b : DdBroker H} {pubtopic name topic : CStr}
    {socks : Option (List Frame)} {msg : List Frame}
    (hsocks : nnTrieTree b.topicsTrie pubtopic.bytes = some socks) (hcuts : Cuts pubtopic topic) :
    pubRemotely b pubtopic name msg = .done b (pubLocally socks name topic msg) := by
  obtain ⟨rest, hafter, hbefore, hmem⟩ := hcuts.after
  simp only [pubRemotely, hsocks]
  cases socks with
  | none => rfl
  | some socks => simp only [hafter, hbefore, hmem, if_true]

omit [DecidableEq H] in
/-- The messages for a subscriber determine the strings in them. -/
theorem pubLocally_inj {socks : List Frame} (hne : socks ≠ []) {name name' topic topic' : CStr}
    {msg : List Frame} (h : pubLocally (some socks) name topic msg =
      pubLocally (some socks) name' topic' msg) : name = name' ∧ topic = topic' := by
  obtain ⟨s, rest, rfl⟩ := List.exists_cons_of_ne_nil hne
  simp only [pubLocally, Option.getD_some, List.map_cons, List.cons.injEq, Send.rsock.injEq, ddMsg,
    true_and] at h
  exact ⟨CStr.ext h.1.1, CStr.ext h.1.2.1⟩

omit [DecidableEq H] in
/-- **`pub_remotely` hands on a topic** just when it stands in the composed string. -/
theorem pubRemotely_eq_done_iff {b : DdBroker H} {pubtopic name name' topic : CStr}
    {socks : List Frame} {msg : List Frame}
    (hsocks : nnTrieTree b.topicsTrie pubtopic.bytes = some (some socks)) (hne : socks ≠ []) :
    pubRemotely b pubtopic name msg = .done b (pubLocally (some socks) name' topic msg) ↔
      name = name' ∧ Cuts pubtopic topic := by
  constructor
  · intro h
    simp only [pubRemotely, hsocks] at h
    split at h
    · cases h
    · next rest hrest =>
      split at h
      · next hslash =>
        rw [Outcome.done.injEq] at h
        obtain ⟨rfl, rfl⟩ := pubLocally_inj hne h.2
        exact ⟨rfl, cuts_of_after hrest hslash⟩
      · cases h
  · rintro ⟨rfl, hcuts⟩
    exact pubRemotely_eq_done hsocks hcuts

/-! ## For which topics -/

/-- The topic without the `$` that asks for no scope. -/
def localTopic (topic : CStr) : CStr :=
  if topic.bytes.getLast? = some 36 then topic.truncate (topic.length - 1) else topic

/-- **The publications that are the same everywhere** — the topic is not public, and for a tenant
without a dot: it does not end in `$`, has no slash, and fits the 256-byte buffer with the tenant,
the dot and the slash.  A tenant with a dot has to contain a slash after it, and the topic is what
stands between the two. -/
def Transparent (tenant topic : CStr) : Prop :=
  ¬ topic.startsWith publicDot ∧
  match tenant.after dot with
  | none => topic.bytes.getLast? ≠ some 36 ∧ slash ∉ topic.bytes ∧
      tenant.length + 1 + topic.length + 1 ≤ 255
  | some t => slash ∈ t.bytes ∧ localTopic topic = t.before slash

omit [DecidableEq H] in
theorem composeTopic_topic (self : DdBroker H) (ln : LocalClient) (topic : CStr) :
    (composeTopic self ln topic).1 = localTopic topic := by
  unfold composeTopic localTopic
  simp only
  by_cases h : topic.bytes.getLast? = some 36
  · simp only [h, decide_true, if_true]
    split <;> rfl
  · simp only [h, decide_false, Bool.false_eq_true, if_false]
    split <;> rfl

/-- What `s_cb_pub` puts after the tenant. -/
def prefixTopic (scope topic : CStr) : CStr :=
  if topic.bytes.getLast? = some 36 then localTopic topic else (topic ++ scope).truncate 255

omit [DecidableEq H] in
theorem composeTopic_pubtopic (self : DdBroker H) (ln : LocalClient) (topic : CStr) :
    (composeTopic self ln topic).2.1 = if topic.startsWith publicDot
      then prefixTopic self.brokerScope topic
      else joined 255 ln.tenant (prefixTopic self.brokerScope topic) := by
  unfold composeTopic prefixTopic localTopic
  simp only
  by_cases h : topic.bytes.getLast? = some 36
  · simp only [h, decide_true, if_true]
    split <;> rfl
  · simp only [h, decide_false, Bool.false_eq_true, if_false]
    split <;> rfl

section

variable {tenant topic scope : CStr} {r : List UInt8}

theorem localTopic_exact (h : topic.bytes.getLast? = some 36) :
    prefixTopic scope topic = localTopic topic := if_pos h

theorem localTopic_plain (h : topic.bytes.getLast? ≠ some 36) : localTopic topic = topic := if_neg h

/-- What `s_cb_pub` puts after the tenant starts with a topic and the slash of the scope. -/
theorem prefixTopic_plain (hscope : scope.bytes = slash :: r)
    (h : topic.bytes.getLast? ≠ some 36) :
    (prefixTopic scope topic).bytes = (topic.bytes ++ slash :: r).take 255 := by
  rw [prefixTopic, if_neg h, CStr.bytes_truncate, CStr.bytes_append, hscope]

/-- The head of a list up to its first slash does not depend on what was cut off after it. -/
theorem eq_of_take_eq {n : Nat} {a b u v : List UInt8}
    (h : (a ++ slash :: u).take n = b ++ slash :: v)
    (ha : slash ∉ a) (hb : slash ∉ b) : a = b := by
  have hall := List.take_append_drop n (a ++ slash :: u)
  rw [h, List.append_assoc, List.cons_append] at hall
  exact (CStr.append_cons_inj hall hb ha).1.symm

/-- **A public topic** loses its `public.` on the way. -/
theorem not_cuts_public (hscope : scope.bytes = slash :: r) (h : topic.startsWith publicDot) :
    ¬ Cuts (prefixTopic scope topic) (localTopic topic) := by
  rintro ⟨p, r', hp, hdot, hslash⟩
  by_cases hexact : topic.bytes.getLast? = some 36
  · -- the whole string would be longer than itself
    rw [localTopic_exact hexact] at hp
    have hlen := congrArg List.length hp
    simp only [List.length_append, List.length_cons] at hlen
    omega
  · rw [localTopic_plain hexact] at hp hslash
    rw [prefixTopic_plain hscope hexact] at hp
    obtain ⟨t', ht'⟩ := CStr.startsWith_iff.mp h
    have htopic : topic.bytes = publicName.bytes ++ dot :: t' := ht'.symm
    have htake : (topic.bytes ++ slash :: r).take 255 =
        publicName.bytes ++ dot :: (t' ++ slash :: r).take 248 := by
      rw [htopic, List.append_assoc, List.cons_append]
      rfl
    rw [htake] at hp
    obtain ⟨-, hrest⟩ := CStr.append_cons_inj hp (by decide) hdot
    have ht : slash ∉ t' := fun hmem => hslash (htopic ▸ by simp [hmem])
    have heq := congrArg List.length (eq_of_take_eq hrest ht hslash)
    rw [htopic, List.length_append, List.length_cons] at heq
    omega

/-- The composed string begins with the tenant, the dot and as much of the rest as fits. -/
theorem joined_bytes (hfits : tenant.length < 255) (x : CStr) :
    (joined 255 tenant x).bytes = tenant.bytes ++ dot :: x.bytes.take (254 - tenant.length) := by
  have hbytes : (joined 255 tenant x).bytes = (tenant.bytes ++ dot :: x.bytes).take 255 := by
    rw [joined, CStr.bytes_truncate, CStr.bytes_append, CStr.bytes_append, List.append_assoc]
    rfl
  have hle : tenant.bytes.length ≤ 255 := Nat.le_of_lt hfits
  have hsub : 255 - tenant.bytes.length = (254 - tenant.length) + 1 := by
    rw [CStr.length] at hfits ⊢
    omega
  rw [hbytes, List.take_append, List.take_of_length_le hle, hsub, List.take_succ_cons]

/-- **A tenant without a dot.** -/
theorem cuts_iff_of_dot_free (hscope : scope.bytes = slash :: r) (hfits : tenant.length < 255)
    (hdot : dot ∉ tenant.bytes) :
    Cuts (joined 255 tenant (prefixTopic scope topic)) (localTopic topic) ↔
      topic.bytes.getLast? ≠ some 36 ∧ slash ∉ topic.bytes ∧
        tenant.length + 1 + topic.length + 1 ≤ 255 := by
  constructor
  · rintro ⟨p, r', hp, hdot', hslash⟩
    rw [joined_bytes hfits] at hp
    obtain ⟨-, hrest⟩ := CStr.append_cons_inj hp hdot hdot'
    have hlen := congrArg List.length hrest
    rw [List.length_take, List.length_append, List.length_cons] at hlen
    by_cases hexact : topic.bytes.getLast? = some 36
    · rw [localTopic_exact hexact] at hlen
      omega
    · rw [localTopic_plain hexact] at hlen hslash
      refine ⟨hexact, hslash, ?_⟩
      rw [CStr.length] at hfits hlen ⊢
      rw [CStr.length]
      omega
  · rintro ⟨hexact, hslash, hlen⟩
    rw [localTopic_plain hexact]
    have hn : 254 - tenant.length = topic.bytes.length +
      (253 - tenant.length - topic.length) + 1 := by
      rw [CStr.length, CStr.length] at *
      omega
    refine ⟨tenant.bytes, r.take (253 - tenant.length - topic.length), ?_, hdot, hslash⟩
    rw [joined_bytes hfits, prefixTopic_plain hscope hexact, List.take_take,
      Nat.min_eq_left (by omega), List.take_append, List.take_of_length_le (by omega), hn,
      Nat.add_assoc, Nat.add_sub_cancel_left, List.take_succ_cons]

/-- **A tenant with a dot.** -/
theorem cuts_iff_of_dot (hscope : scope.bytes = slash :: r) (hfits : tenant.length < 255) {t : CStr}
    (ht : tenant.after dot = some t) :
    Cuts (joined 255 tenant (prefixTopic scope topic)) (localTopic topic) ↔
      slash ∈ t.bytes ∧ localTopic topic = t.before slash := by
  have htenant := CStr.exists_of_after ht
  have hdot : dot ∉ (tenant.before dot).bytes := fun h => by simpa using List.mem_takeWhile_imp h
  have hjoined := joined_bytes hfits (prefixTopic scope topic)
  rw [htenant, List.append_assoc, List.cons_append] at hjoined
  constructor
  · rintro ⟨p, r', hp, hdot', hslash⟩
    rw [hjoined] at hp
    obtain ⟨-, hrest⟩ := CStr.append_cons_inj hp hdot hdot'
    by_cases hmem : slash ∈ t.bytes
    · refine ⟨hmem, ?_⟩
      have hsplit := CStr.exists_of_after (show t.after slash = some _ from if_pos hmem)
      rw [hsplit, List.append_assoc, List.cons_append] at hrest
      exact CStr.ext (CStr.append_cons_inj hrest (slash_not_mem_before t) hslash).1.symm
    · -- the first slash would come after the rest of the tenant, its dot and the topic
      exfalso
      have hmem' : slash ∈ ((prefixTopic scope topic).bytes.take (254 - tenant.length)) := by
        have : slash ∈ t.bytes ++
            dot :: (prefixTopic scope topic).bytes.take (254 - tenant.length) :=
          hrest ▸ by simp
        rw [List.mem_append, List.mem_cons] at this
        exact (this.resolve_left hmem).resolve_left (by decide)
      obtain ⟨y, y', hy, hyslash⟩ := List.eq_append_cons_of_mem hmem'
      rw [hy, ← List.cons_append, ← List.append_assoc] at hrest
      have hfront : slash ∉ t.bytes ++ dot :: y := by
        simp only [List.mem_append, List.mem_cons, not_or]
        exact ⟨hmem, by decide, hyslash⟩
      have hlen := congrArg List.length (CStr.append_cons_inj hrest hfront hslash).1
      rw [List.length_append, List.length_cons] at hlen
      by_cases hexact : topic.bytes.getLast? = some 36
      · rw [localTopic_exact hexact] at hmem'
        exact hslash (List.mem_of_mem_take hmem')
      · rw [localTopic_plain hexact] at hslash hlen
        rw [prefixTopic_plain hscope hexact, List.take_take] at hy
        have heq := congrArg List.length (eq_of_take_eq hy hslash hyslash)
        omega
  · rintro ⟨hmem, hlocal⟩
    have hsplit := CStr.exists_of_after (show t.after slash = some _ from if_pos hmem)
    rw [hsplit, List.append_assoc, List.cons_append] at hjoined
    rw [hlocal]
    exact ⟨_, _, hjoined, hdot, slash_not_mem_before t⟩

end

/-! ## A subscriber to everything of a tenant -/

/-- The key file of a broker with one tenant. -/
def tenantKeys (tenant : CStr) : DdBrokerKeys where
  tenants := [tenant]
  tenantkeys := [(text "h", ⟨tenant, cookieOf 65, []⟩)]
  hash := text "r"
  cookie := cookieOf 82
  ddboxk := []

/-- A broker with one tenant, with a higher broker or none. -/
def tenantConfig (dealer : Bool) (tenant : CStr) : Config :=
  { demoConfig with keys := tenantKeys tenant, dealer := dealer }

theorem step_router_ddMsg (self : DdBroker H) (source : Frame) (cmd : Cmd) (body : List Frame) :
    step env self (.router (source :: ddMsg cmd body)) = onRouterCmd env self source cmd body := by
  simp [step, sOnRouterMsg, ddMsg]

/-- The client of the broker with one tenant. -/
def tenantClient (tenant : CStr) : LocalClient :=
  ⟨∅, joined 255 tenant ∅, tenant, cookieOf 65, [1]⟩

/-- The broker after the client registered. -/
def tenantBroker (env : Env H) (dealer : Bool) (tenant : CStr) : DdBroker H :=
  { (ddBrokerNew H (tenantConfig dealer tenant)).touch (tenantClient tenant) with
    lclCliHt := [(env.xxh32 ([1] ++ (cookieOf 65).1), tenantClient tenant)]
    revLclCliHt := [(env.xxh32 (prenameKey (joined 255 tenant ∅)), tenantClient tenant)] }

theorem step_register_tenant {dealer : Bool} {tenant : CStr} (hfits : tenant.length < 255) :
    ∃ sends, step env (ddBrokerNew H (tenantConfig dealer tenant))
      (.router (challokMsg [1] (cookieOf 65) (text "h") ∅)) =
        .done (tenantBroker env dealer tenant) sends := by
  have hten : (ddBrokerNew H (tenantConfig dealer tenant)).keys.tenant (text "h") =
      some ⟨tenant, cookieOf 65, []⟩ := by
    simp [DdBrokerKeys.tenant, ddBrokerNew, tenantConfig, tenantKeys]
  have hlen : ¬ 255 < (tenant ++ dotStr ++ ∅).length := by
    simp only [CStr.length, CStr.bytes_append, List.length_append] at hfits ⊢
    exact Nat.not_lt.mpr hfits
  have hinsert : insertLocalClient env (ddBrokerNew H (tenantConfig dealer tenant)) [1]
      ⟨tenant, cookieOf 65, []⟩ ∅ = some (some (tenantBroker env dealer tenant)) := by
    unfold insertLocalClient
    rw [if_neg hlen]
    rfl
  have hhash : text "h" ≠ (ddBrokerNew H (tenantConfig dealer tenant)).keys.hash :=
    show text "h" ≠ text "r" by decide
  rw [challokMsg, step_router_ddMsg]
  simp only [onRouterCmd, sCbChallok, CStr.ofBytes_bytes, if_neg hhash, hten, readCookie_cookie,
    ne_eq, not_true_eq_false, if_false, registerClient, hinsert]
  exact ⟨_, rfl⟩

/-- **Some broker has a subscriber to all topics of a tenant.** -/
theorem exists_subscriber (env : Env H) (dealer : Bool) {tenant : CStr}
    (hfits : tenant.length < 255) :
    ∃ b : DdBroker H, Reachable env (tenantConfig dealer tenant) b ∧ b.dsock = dealer ∧
      b.brokerId = some (CStr.ascii "root") ∧ Shaped b.topicsTrie ∧
      [1] ∈ held b.topicsTrie (tenant ++ dotStr).bytes := by
  obtain ⟨sends, hreg⟩ := @step_register_tenant _ _ env dealer _ hfits
  have hrun : Run env (tenantConfig dealer tenant) _ (tenantBroker env dealer tenant) :=
    .step .init rfl hreg
  set key := subTopic tenant ∅ ∅ with hkey
  have hkeyeq : key = tenant ++ dotStr := by
    refine CStr.ext ?_
    simp only [hkey, subTopic, CStr.bytes_truncate, CStr.bytes_append, CStr.bytes_empty,
      List.append_nil]
    refine List.take_of_length_le ?_
    rw [List.length_append]
    exact hfits
  have haccepted : hashtableHasLocalNode env (tenantBroker env dealer tenant) [1] (cookieOf 65).1 =
      some (some (tenantClient tenant)) := by
    simp [hashtableHasLocalNode, tenantBroker, Lfht.lookup, matchLclNodeSockid, tenantClient,
      memcmpKey_self]
  have hreq : subRequest ((tenantBroker env dealer tenant).touch (tenantClient tenant)).scope
      (tenantClient tenant) [[], CStr.ascii "noscope"] =
        some (∅, text "noscope", key) := by
    have hempty : CStr.ofBytes [] = ∅ := rfl
    have hscope : CStr.ofBytes (CStr.ascii "noscope") = ⟨CStr.ascii "noscope", by decide⟩ := by
      decide
    simp only [subRequest, zmsgPopstr, hempty, newscope, hscope, if_true, Option.map_some,
      if_neg (show (∅ : CStr) ≠ publicName by decide)]
    rfl
  obtain ⟨n, r, hn, hwf, -, hsubs⟩ := nnTrieSubscribe_spec (s := [1]) shaped_none key.nul_free rfl
  have hsub : ∃ b sends', step env (tenantBroker env dealer tenant)
      (.router ([1] :: ddMsg .sub [(cookieOf 65).1, [], CStr.ascii "noscope"])) = .done b sends' ∧
      b.dsock = dealer ∧ b.brokerId = some (CStr.ascii "root") ∧ b.topicsTrie = some n := by
    rw [step_router_ddMsg]
    simp only [onRouterCmd, sCbSub, haccepted, hreq]
    have hins : insertSubscription env
      ((tenantBroker env dealer tenant).touch (tenantClient tenant)) [1]
        key = some ({ (tenantBroker env dealer tenant).touch (tenantClient tenant) with
          subscribeHt := [(env.xxh32 [1], ⟨[key], [1]⟩)] }, 2) := rfl
    have htrie : nnTrieSubscribe (tenantBroker env dealer tenant).topicsTrie key.bytes [1] =
        some (some n, r) := hn
    rw [hins]
    simp only [DdBroker.touch, htrie]
    exact ⟨_, _, rfl, rfl, rfl, rfl⟩
  obtain ⟨b, sends', hstep, hdsock, hid, htrie⟩ := hsub
  refine ⟨b, ⟨_, .step hrun rfl hstep⟩, hdsock, hid, htrie ▸ shaped_some hwf, ?_⟩
  rw [htrie, held_some, ← hkeyeq, hsubs, if_pos rfl, mem_zlistAppendUnique]
  exact Or.inr rfl

/-! ## The publication on its way -/

/-- **The messages a publication is carried in** — from the publisher's broker to its neighbours,
and from any broker that received one to the next. -/
inductive Carried {H : Type} (o : Outcome H) : List Frame → Prop
  | north {m : List Frame} : .pubN m ∈ o.sends → Carried o m
  | south {m : List Frame} : .pubS m ∈ o.sends → Carried o m
  | subN {b : DdBroker H} {m m' : List Frame} : Carried o m →
      .pubS m' ∈ (sOnSubNMsg b m).sends → Carried o m'
  | subS {b : DdBroker H} {m m' : List Frame} : Carried o m →
      (.pubN m' ∈ (sOnSubSMsg b m).sends ∨ .pubS m' ∈ (sOnSubSMsg b m).sends) → Carried o m'

theorem relays_msg {m : List Frame} {x : Send} (hx : x = .pubN m ∨ x = .pubS m)
    {pubtopic name : CStr} {payload : List Frame} (h : x.Relays pubtopic name payload) :
    ∃ pathv, m = pubtopic.bytes :: name.bytes :: pathv :: payload := by
  obtain ⟨pathv, h⟩ := h
  obtain rfl | rfl := hx <;> obtain h | h := h <;> cases h <;> exact ⟨pathv, rfl⟩

omit [DecidableEq H] in
theorem not_mem_pubLocally {m : List Frame} {x : Send} (hx : x = .pubN m ∨ x = .pubS m)
    {socks : Option (List Frame)} {name topic : CStr} {payload : List Frame} :
    x ∉ pubLocally socks name topic payload := by
  intro h
  have hcmd := says_pubLocally _ _ _ _ x h
  obtain rfl | rfl := hx <;> cases hcmd

omit [DecidableEq H] in
/-- **No broker on the way changes the strings.** -/
theorem Carried.shape {o : Outcome H} {pubtopic name : CStr} {payload : List Frame}
    (ho : ∀ x ∈ o.sends, ∀ m, x = .pubN m ∨ x = .pubS m → x.Relays pubtopic name payload)
    {m : List Frame} (h : Carried o m) :
    ∃ pathv, m = pubtopic.bytes :: name.bytes :: pathv :: payload := by
  induction h with
  | north hx => exact relays_msg (Or.inl rfl) (ho _ hx _ (Or.inl rfl))
  | south hx => exact relays_msg (Or.inr rfl) (ho _ hx _ (Or.inr rfl))
  | subN _ hx ih =>
    obtain ⟨pathv, rfl⟩ := ih
    obtain ⟨_, _, _, hm, hrelay | ⟨_, _, -, hx⟩⟩ := sOnSubNMsg_sends hx
    · cases hm
      rw [CStr.ofBytes_bytes, CStr.ofBytes_bytes] at hrelay
      exact relays_msg (Or.inr rfl) hrelay
    · exact absurd hx (not_mem_pubLocally (Or.inr rfl))
  | @subS b m m' _ hx ih =>
    obtain ⟨pathv, rfl⟩ := ih
    have hone : ∃ x, (x = .pubN m' ∨ x = .pubS m') ∧ x ∈ (sOnSubSMsg b
        (pubtopic.bytes :: name.bytes :: pathv :: payload)).sends :=
      hx.elim (fun h => ⟨_, Or.inl rfl, h⟩) fun h => ⟨_, Or.inr rfl, h⟩
    obtain ⟨x, hxm, hx⟩ := hone
    obtain ⟨_, _, _, hm, hrelay | ⟨_, _, -, hx⟩⟩ := sOnSubSMsg_sends hx
    · cases hm
      rw [CStr.ofBytes_bytes, CStr.ofBytes_bytes] at hrelay
      exact relays_msg hxm hrelay
    · exact absurd hx (not_mem_pubLocally hxm)

/-- **A broker hands the publication on as these strings** — every subscriber it has for the topic
is sent the source and the topic, and the delivery comes to its end. -/
def ReceivedAs {H : Type} (b : DdBroker H) (name topic : CStr) (m : List Frame) : Prop :=
  ∀ (pubtopic nameFrame pathv : Frame) (payload socks : List Frame),
    m = pubtopic :: nameFrame :: pathv :: payload →
    nnTrieTree b.topicsTrie (CStr.ofBytes pubtopic).bytes = some (some socks) → socks ≠ [] →
    pubRemotely b (CStr.ofBytes pubtopic) (CStr.ofBytes nameFrame) payload =
      .done b (pubLocally (some socks) name topic payload)

variable (env) in
/-- **The same strings everywhere** — the publisher's broker hands them to its own subscribers, and
so does every broker the publication is carried to. -/
def SameEverywhere (o : Outcome H) (name topic : CStr) : Prop :=
  (∀ x ∈ o.sends, x.cmd = some .pub → ∃ s payload,
    x = .rsock s (ddMsg .pub (name.bytes :: topic.bytes :: payload))) ∧
  ∀ m, Carried o m → ∀ (cfg : Config) (b : DdBroker H), Reachable env cfg b →
    ReceivedAs b name topic m

/-! ## The scope and the tenant of a publisher -/

/-- The scope of a broker starts with a slash. -/
theorem Config.brokerScope_bytes (cfg : Config) : ∃ r, cfg.brokerScope.bytes = slash :: r := by
  have hfold : ∀ (l : List CStr) (s : CStr), (∃ r, s.bytes = slash :: r) →
      ∃ r, (l.foldl (fun s t => s ++ t ++ slashStr) s).bytes = slash :: r := by
    intro l
    induction l with
    | nil => exact fun s hs => hs
    | cons t l ih =>
      rintro s ⟨r, hr⟩
      exact ih _ ⟨r ++ t.bytes ++ slashStr.bytes, by
        rw [CStr.bytes_append, CStr.bytes_append, hr]; rfl⟩
  obtain ⟨r, hr⟩ := hfold cfg.scope slashStr ⟨[], rfl⟩
  exact ⟨r.take 254, by rw [Config.brokerScope, CStr.bytes_truncate, hr, List.take_succ_cons]⟩

theorem Run.brokerScope {cfg : Config} {es : List Event} {self : DdBroker H}
    (h : Run env cfg es self) : self.brokerScope = cfg.brokerScope := by
  induction h with
  | init => rfl
  | step _ _ hs ih => exact (step_frame hs).brokerScope.trans ih

/-- The tenant of a client fits the buffers: its full name does. -/
theorem Run.tenant_fits {cfg : Config} {es : List Event} {self : DdBroker H}
    (h : Run env cfg es self) : ∀ c ∈ self.lclCliHt.nodes, c.tenant.length < 255 := by
  induction h with
  | init => exact fun c hc => absurd hc List.not_mem_nil
  | step _ _ hs ih =>
    intro c hc
    obtain hold | ⟨_, _, ten, name, -, hlen, rfl⟩ := (step_frame hs).clients c hc
    · exact ih c hold
    · rw [CStr.length, CStr.bytes_append, CStr.bytes_append, List.length_append,
        List.length_append] at hlen
      have hdot : dotStr.bytes.length = 1 := rfl
      show ten.name.bytes.length < 255
      omega

/-! ## Which publications are the same everywhere -/

/-- **The composed string cuts back into the topic** for the transparent topics. -/
theorem cuts_composeTopic_iff {cfg : Config} {es : List Event} {self : DdBroker H}
    (hrun : Run env cfg es self) {ln : LocalClient} (hfits : ln.tenant.length < 255)
    (topic : CStr) :
    Cuts (composeTopic self ln topic).2.1 (composeTopic self ln topic).1 ↔
      Transparent ln.tenant topic := by
  obtain ⟨r, hscope⟩ := cfg.brokerScope_bytes
  rw [← hrun.brokerScope] at hscope
  rw [composeTopic_topic, composeTopic_pubtopic, Transparent]
  split
  · next hpub => exact iff_of_false (not_cuts_public hscope hpub) fun h => h.1 hpub
  · next hpub =>
    cases hafter : ln.tenant.after dot with
    | none =>
      have hdot : dot ∉ ln.tenant.bytes := fun hmem => by
        rw [CStr.after, if_pos hmem] at hafter
        cases hafter
      rw [cuts_iff_of_dot_free hscope hfits hdot]
      exact (and_iff_right hpub).symm
    | some t =>
      rw [cuts_iff_of_dot hscope hfits hafter]
      exact (and_iff_right hpub).symm

/-- A publication that is accepted is sent south. -/
theorem exists_south {self : DdBroker H} {source cookie : Frame} {msg : List Frame}
    (h : (sCbPub env self source cookie msg).sends ≠ []) :
    ∃ pubtopic name payload,
      Send.pubS (pubtopic :: name :: [] :: payload) ∈
        (sCbPub env self source cookie msg).sends := by
  unfold sCbPub at h ⊢
  simp only at h ⊢
  split at h
  · exact absurd rfl h
  · exact absurd rfl h
  · split at h
    · exact absurd rfl h
    · split at h
      · exact absurd rfl h
      · next hne =>
        simp only [hne, if_false]
        split at h
        · exact absurd rfl h
        · next hid =>
          split
          · exact ⟨_, _, _, List.mem_append_right _ (List.mem_singleton.mpr rfl)⟩
          · exact ⟨_, _, _, List.mem_append_left _
              (List.mem_append_right _ (List.mem_singleton.mpr rfl))⟩

/-- A publication is the same everywhere just when its composed string cuts back into its topic. -/
theorem sameEverywhere_iff_cuts {cfg : Config} {es : List Event} {self : DdBroker H}
    (hrun : Run env cfg es self) {source cookie topicFrame : Frame} {ln : LocalClient}
    (hln : hashtableHasLocalNode env self source cookie = some (some ln)) {rest : List Frame}
    (haccepted : (sCbPub env self source cookie (topicFrame :: rest)).sends ≠ []) :
    SameEverywhere env (sCbPub env self source cookie (topicFrame :: rest))
        (composeTopic self ln (CStr.ofBytes topicFrame)).2.2
        (composeTopic self ln (CStr.ofBytes topicFrame)).1 ↔
      Cuts (composeTopic self ln (CStr.ofBytes topicFrame)).2.1
        (composeTopic self ln (CStr.ofBytes topicFrame)).1 := by
  set topic := CStr.ofBytes topicFrame with htopic
  have hfits : ln.tenant.length < 255 := hrun.tenant_fits ln (Lfht.mem_of_lookup hln)
  have hsends : ∀ x ∈ (sCbPub env self source cookie (topicFrame :: rest)).sends,
      x.Relays (composeTopic self ln topic).2.1 (composeTopic self ln topic).2.2 (zmsgPop rest).2 ∨
      ∃ socks, x ∈ pubLocally socks (composeTopic self ln topic).2.2
        (composeTopic self ln topic).1 (zmsgPop rest).2 := by
    intro x hx
    obtain ⟨ln', _, _, _, _, _, hm, -, hln', hcomp, hx⟩ := sCbPub_sends hx
    cases hm
    rw [hln] at hln'
    cases hln'
    rw [hcomp]
    exact hx.imp_right fun ⟨socks, _, h⟩ => ⟨socks, h⟩
  have hshape : ∀ m, Carried (sCbPub env self source cookie (topicFrame :: rest)) m →
      ∃ pathv, m = (composeTopic self ln topic).2.1.bytes ::
        (composeTopic self ln topic).2.2.bytes :: pathv :: (zmsgPop rest).2 := by
    refine fun m hm => hm.shape fun x hx m hxm => (hsends x hx).resolve_right ?_
    rintro ⟨socks, hx⟩
    exact not_mem_pubLocally hxm hx
  constructor
  · rintro ⟨-, hremote⟩
    -- a broker with a subscriber to all topics of the tenant
    obtain ⟨_, _, _, hm⟩ := exists_south haccepted
    obtain ⟨pathv, hm'⟩ := hshape _ (.south hm)
    rw [hm'] at hm
    have hfits' : (topicTenant ln topic).length < 255 := by
      unfold topicTenant
      split
      · decide
      · exact hfits
    obtain ⟨b, hb, -, -, hshaped, hheld⟩ := exists_subscriber env false hfits'
    obtain ⟨l, hl, -, hmem, -⟩ := nnTrieTree_spec hshaped (composeTopic self ln topic).2.1.nul_free
    have hsub : [1] ∈ l.getD [] := (hmem [1]).mpr ⟨_, owned_composeTopic self topic hfits, hheld⟩
    cases l with
    | none => exact absurd hsub List.not_mem_nil
    | some socks =>
      have hne : socks ≠ [] := List.ne_nil_of_mem hsub
      have hrec := hremote _ (.south hm) _ b hb _ _ pathv _ socks rfl
        (by rwa [CStr.ofBytes_bytes]) hne
      rw [CStr.ofBytes_bytes, CStr.ofBytes_bytes] at hrec
      exact ((pubRemotely_eq_done_iff hl hne).mp hrec).2
  · intro hcuts
    refine ⟨fun x hx hpub => ?_, fun m hm cfg' b hb => ?_⟩
    · obtain hrelay | ⟨socks, hx⟩ := hsends x hx
      · rw [hrelay.cmd] at hpub
        cases hpub
      · obtain ⟨s, -, rfl⟩ := List.mem_map.mp hx
        exact ⟨s, _, rfl⟩
    · obtain ⟨pathv, rfl⟩ := hshape m hm
      intro pubtopic nameFrame pathv' payload socks heq hsocks hne
      cases heq
      rw [CStr.ofBytes_bytes, CStr.ofBytes_bytes]
      rw [CStr.ofBytes_bytes] at hsocks
      exact (pubRemotely_eq_done_iff hsocks hne).mpr ⟨rfl, hcuts⟩

/-- **Which publications are the same everywhere** — for every publisher and every topic that
`s_cb_pub` accepts: all subscribers of the tree get the same strings just when the topic is
transparent for the publisher's tenant. -/
theorem sameEverywhere_iff {cfg : Config} {es : List Event} {self : DdBroker H}
    (hrun : Run env cfg es self) {source cookie topicFrame : Frame} {ln : LocalClient}
    (hln : hashtableHasLocalNode env self source cookie = some (some ln)) {rest : List Frame}
    (haccepted : (sCbPub env self source cookie (topicFrame :: rest)).sends ≠ []) :
    SameEverywhere env (sCbPub env self source cookie (topicFrame :: rest))
        (composeTopic self ln (CStr.ofBytes topicFrame)).2.2
        (composeTopic self ln (CStr.ofBytes topicFrame)).1 ↔
      Transparent ln.tenant (CStr.ofBytes topicFrame) :=
  (sameEverywhere_iff_cuts hrun hln haccepted).trans
    (cuts_composeTopic_iff hrun (hrun.tenant_fits ln (Lfht.mem_of_lookup hln)) _)

/-! ### A public topic -/

/-- The publisher of the demonstration and the entry its commands are acted on for. -/
theorem headRun_publishes (topic : Frame)
    (htopic : topic = CStr.ascii "y" ∨ topic = CStr.ascii "public.y" ∨ topic = CStr.ascii "y$") :
    (runEvents plainEnv (ddBrokerNew _ demoConfig) headRun).map (fun self =>
      (hashtableHasLocalNode plainEnv self [1, 2, 3, 4, 5] (cookieOf 65).1,
        decide ((sCbPub plainEnv self [1, 2, 3, 4, 5] (cookieOf 65).1 [topic, []]).sends = []))) =
      some (some (some ⟨text "x", text "a.x", text "a", cookieOf 65, [1, 2, 3, 4, 5]⟩), false) := by
  obtain rfl | rfl | rfl := htopic <;> decide

/-- The topic `y` of the tenant `a` is the same everywhere. -/
theorem sameEverywhere_y : ∃ self, Run plainEnv demoConfig headRun self ∧
    ∃ name, SameEverywhere plainEnv
      (sCbPub plainEnv self [1, 2, 3, 4, 5] (cookieOf 65).1 [CStr.ascii "y", []]) name
        (text "y") := by
  obtain ⟨self, hself, hpair⟩ := Option.map_eq_some_iff.mp
    (headRun_publishes (CStr.ascii "y") (by simp))
  obtain ⟨hln, hsends⟩ := Prod.mk.inj hpair
  have hrun : Run plainEnv demoConfig headRun self := .of_runEvents hself
  have hsame := (sameEverywhere_iff hrun hln (of_decide_eq_false hsends)).mpr
    ⟨by decide, by decide, by decide, by decide⟩
  rw [composeTopic_topic] at hsame
  exact ⟨self, hrun, _, hsame⟩

/-- **Not every publication is the same everywhere.** -/
theorem not_sameEverywhere : ¬ ∀ (H : Type) [DecidableEq H] (env : Env H) (cfg : Config)
    (es : List Event) (self : DdBroker H), Run env cfg es self →
    ∀ (source cookie topicFrame : Frame) (ln : LocalClient) (rest : List Frame),
    hashtableHasLocalNode env self source cookie = some (some ln) →
    (sCbPub env self source cookie (topicFrame :: rest)).sends ≠ [] →
    SameEverywhere env (sCbPub env self source cookie (topicFrame :: rest))
      (composeTopic self ln (CStr.ofBytes topicFrame)).2.2
      (composeTopic self ln (CStr.ofBytes topicFrame)).1 := by
  intro hall
  obtain ⟨self, hself, hpair⟩ :=
    Option.map_eq_some_iff.mp (headRun_publishes (CStr.ascii "public.y") (by simp))
  obtain ⟨hln, hsends⟩ := Prod.mk.inj hpair
  have hrun : Run plainEnv demoConfig headRun self := .of_runEvents hself
  have hsame := hall _ plainEnv demoConfig headRun self hrun _ _ _ _ _ hln
    (of_decide_eq_false hsends)
  have hcuts := (sameEverywhere_iff_cuts hrun hln (of_decide_eq_false hsends)).mp hsame
  obtain ⟨r, hscope⟩ := demoConfig.brokerScope_bytes
  rw [← hrun.brokerScope] at hscope
  have hpub : (CStr.ofBytes (CStr.ascii "public.y")).startsWith publicDot := by decide
  rw [composeTopic_topic, composeTopic_pubtopic, if_pos hpub] at hcuts
  exact not_cuts_public hscope hpub hcuts

end DoubleDecker
