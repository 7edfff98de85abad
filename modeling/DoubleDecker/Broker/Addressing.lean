import DoubleDecker.Broker.Registry
import DoubleDecker.Broker.Routing
import DoubleDecker.Broker.Scope

/-!
# Broker/Addressing — which client a `SEND` means

`s_cb_send` reads a destination as it is when it names a tenant itself, and puts the sender's tenant
before it otherwise.  It tells the two apart by a loop over the tenants that compares beginnings,
and it prints the longer name into a buffer of 256 bytes.
-/

namespace DoubleDecker

variable {H : Type} [DecidableEq H] {env : Env H} {b b' : DdBroker H} {e : Event}
  {sends : List Send}

/-! ## Destinations -/

/-- **The client a destination means** to a sender of a tenant. -/
def destName (keys : DdBrokerKeys) (tenant dest : CStr) : CStr :=
  if dest.startsWith publicDot then dest
  else if tenant = publicName ∧ dot ∈ dest.bytes ∧ dest.before dot ∈ keys.tenants then dest
  else tenant ++ dotStr ++ dest

/-- The text before the first dot of a destination begins with the name of a tenant. -/
def LooksQualified (keys : DdBrokerKeys) (dest : CStr) : Prop :=
  dot ∈ dest.bytes ∧ ∃ k ∈ keys.tenants, k.bytes <+: (dest.before dot).bytes

/-- **When the code finds what is meant**: the destination is public or names a tenant exactly, or
it does not look qualified to a public sender and fits the buffer with the sender's tenant. -/
def DestClear (keys : DdBrokerKeys) (tenant dest : CStr) : Prop :=
  dest.startsWith publicDot ∨
  (tenant = publicName ∧ dot ∈ dest.bytes ∧ dest.before dot ∈ keys.tenants) ∨
  ((tenant ++ dotStr ++ dest).length ≤ 255 ∧ ¬ (tenant = publicName ∧ LooksQualified keys dest))

theorem namesTenant_iff {keys : DdBrokerKeys} {dest : CStr} :
    namesTenant keys dest ↔ LooksQualified keys dest := by
  simp [namesTenant, LooksQualified, CStr.startsWith_iff]

/-- A tenant that is named is looked for. -/
theorem LooksQualified.of_mem {keys : DdBrokerKeys} {dest : CStr} (hdot : dot ∈ dest.bytes)
    (hmem : dest.before dot ∈ keys.tenants) : LooksQualified keys dest :=
  ⟨hdot, dest.before dot, hmem, List.prefix_refl _⟩

/-- What `s_cb_send` makes of a destination. -/
theorem resolve_fst (keys : DdBrokerKeys) (tenant dest : CStr) : (resolve keys tenant dest).1 =
    if dest.startsWith publicDot ∨ tenant = publicName ∧ namesTenant keys dest then dest
    else joined 255 tenant dest := by
  unfold resolve
  simp only
  split
  · next hpub => rw [if_pos (Or.inl hpub)]
  · next hpub =>
    split
    · next hten =>
      split
      · next hname => rw [if_pos (Or.inr ⟨of_decide_eq_true hten, hname⟩)]
      · next hname => rw [if_neg (not_or.mpr ⟨hpub, fun h => hname h.2⟩)]
    · next hten => rw [if_neg (not_or.mpr ⟨hpub, fun h => hten (decide_eq_true h.1)⟩)]

/-- A name with its tenant is not the name. -/
theorem ne_qualified (tenant dest : CStr) : dest ≠ tenant ++ dotStr ++ dest := by
  intro h
  have hlen := congrArg CStr.length h
  simp [CStr.length, dotStr] at hlen
  omega

/-- **The code finds what is meant just when the destination is clear.** -/
theorem resolve_eq_destName_iff (keys : DdBrokerKeys) (tenant dest : CStr) :
    (resolve keys tenant dest).1 = destName keys tenant dest ↔ DestClear keys tenant dest := by
  rw [resolve_fst, destName, DestClear, ← namesTenant_iff]
  by_cases hpub : dest.startsWith publicDot
  · simp [hpub]
  by_cases hexact : tenant = publicName ∧ dot ∈ dest.bytes ∧ dest.before dot ∈ keys.tenants
  · have hname := namesTenant_iff.mpr (LooksQualified.of_mem hexact.2.1 hexact.2.2)
    rw [if_pos (Or.inr ⟨hexact.1, hname⟩), if_neg hpub, if_pos hexact]
    exact iff_of_true rfl (Or.inr (Or.inl hexact))
  rw [if_neg hpub, if_neg hexact]
  by_cases hname : tenant = publicName ∧ namesTenant keys dest
  · -- another tenant's name is the beginning of the text before the dot
    rw [if_pos (Or.inr hname)]
    refine iff_of_false (ne_qualified tenant dest) ?_
    rintro (h | h | h)
    · exact hpub h
    · exact hexact h
    · exact h.2 hname
  · rw [if_neg (not_or.mpr ⟨hpub, hname⟩), joined, CStr.truncate_eq_self_iff]
    exact ⟨fun h => Or.inr (Or.inr ⟨h, hname⟩), fun h =>
      ((h.resolve_left hpub).resolve_left hexact).1⟩

/-- The step of a `SEND`. -/
theorem step_sendOf {ln : LocalClient} {dest : CStr} {payload : List Frame}
    (h : sendOf env b e = some (ln, dest, payload)) : ∃ sockid cookie tail,
      e = .router (sockid :: tail) ∧
      hashtableHasLocalNode env b sockid cookie = some (some ln) ∧ step env b e =
        carry env (b.touch ln) (decide (ln.tenant = publicName)) (resolve b.keys ln.tenant dest).2
          ln.prefixName (resolve b.keys ln.tenant dest).1 payload
          (sendNodst (b.touch ln) sockid (decide (ln.tenant = publicName))
            (resolve b.keys ln.tenant dest).2 ln.prefixName (resolve b.keys ln.tenant dest).1) := by
  unfold sendOf at h
  split at h
  · split at h
    · next msg source cookie destFrame payload hm =>
      obtain ⟨ln, hacc, heq⟩ := Option.map_eq_some_iff.mp h
      cases heq
      have hln := acceptedFor_eq_some.mp hacc
      obtain ⟨tail, rfl⟩ := exists_of_routerCmd hm
      exact ⟨source, cookie, tail, rfl, hln, (step_router hm).trans (sCbSend_eq hln _ _)⟩
    · cases h
  · cases h

/-- **Destination resolution** — a `SEND` is routed to one name, which is the one that is meant just
when the destination is clear. -/
theorem destination_iff {ln : LocalClient} {dest : CStr} {payload : List Frame}
    (h : sendOf env b e = some (ln, dest, payload)) :
    ∃ dst, notificationOf env b e = some ⟨ln.prefixName, dst, payload⟩ ∧
      (∃ dstpublic nodst, step env b e = carry env (b.touch ln) (decide (ln.tenant = publicName))
        dstpublic ln.prefixName dst payload nodst) ∧
      (dst = destName b.keys ln.tenant dest ↔ DestClear b.keys ln.tenant dest) := by
  obtain ⟨sockid, cookie, -, -, -, hstep⟩ := step_sendOf h
  exact ⟨(resolve b.keys ln.tenant dest).1, by rw [notificationOf, h]; rfl, ⟨_, _, hstep⟩,
    resolve_eq_destName_iff b.keys ln.tenant dest⟩

/-- A `SEND` without a payload. -/
def sendToEvent (sockid : Frame) (cookie : Cookie) (dest : CStr) : Event :=
  .router (sockid :: ddMsg .send [cookie.1, dest.bytes])

theorem headRun_sendOf : (runEvents plainEnv (ddBrokerNew _ demoConfig) headRun).map (fun b =>
    sendOf plainEnv b (sendToEvent [1, 2, 3, 4, 5] (cookieOf 65) (text "b.y"))) =
      some (some (headClient, text "b.y", [])) := by
  decide

/-- A client of `a` that sends to `b.y`. -/
theorem destination_iff_headRun : ∃ b : DdBroker (List UInt8), Reachable plainEnv demoConfig b ∧
    ∃ dst, notificationOf plainEnv b (sendToEvent [1, 2, 3, 4, 5] (cookieOf 65) (text "b.y")) =
        some ⟨text "a.x", dst, []⟩ ∧
      (∃ dstpublic nodst, step plainEnv b (sendToEvent [1, 2, 3, 4, 5] (cookieOf 65) (text "b.y")) =
        carry plainEnv (b.touch headClient) (decide (text "a" = publicName)) dstpublic
          (text "a.x") dst
          [] nodst) ∧
      (dst = destName b.keys (text "a") (text "b.y") ↔
        DestClear b.keys (text "a") (text "b.y")) := by
  obtain ⟨b, hb, hsend⟩ := Option.map_eq_some_iff.mp headRun_sendOf
  exact ⟨b, ⟨headRun, .of_runEvents hb⟩, destination_iff hsend⟩

/-- A client of the tenant `public`. -/
def publicClient : LocalClient := ⟨text "p", text "public.p", publicName, cookieOf 80, [7]⟩

/-- It registers. -/
def publicRun : List Event := [.router (challokMsg [7] (cookieOf 80) (text "hashP") (text "p"))]

theorem publicRun_sendOf : (runEvents plainEnv (ddBrokerNew _ demoConfig) publicRun).map (fun b =>
    sendOf plainEnv b (sendToEvent [7] (cookieOf 80) (text "ab.x"))) =
      some (some (publicClient, text "ab.x", [])) := by
  decide

/-- **Not every destination is resolved to what it means**: `ab.x` begins with the tenant `a`. -/
theorem not_destination : ¬ ∀ (H : Type) [DecidableEq H] (env : Env H),
    Function.Injective env.xxh32 → ∀ (cfg : Config) (b : DdBroker H), Reachable env cfg b →
    ∀ (e : Event) (ln : LocalClient) (dest : CStr) (payload : List Frame),
    sendOf env b e = some (ln, dest, payload) →
    notificationOf env b e = some ⟨ln.prefixName, destName b.keys ln.tenant dest, payload⟩ := by
  intro hall
  obtain ⟨b, hb, hsend⟩ := Option.map_eq_some_iff.mp publicRun_sendOf
  have hrun : Run plainEnv demoConfig publicRun b := .of_runEvents hb
  have h := hall _ plainEnv Function.injective_id demoConfig b ⟨publicRun, hrun⟩ _ _ _ _ hsend
  rw [notificationOf, hsend, Option.map_some, Option.some_or, hrun.keys] at h
  have hdst := congrArg (Option.map Notification.dst) h
  exact absurd hdst (by decide)

/-! ## Addresses -/

/-- The notification of a `SEND` is delivered to a local client, and nothing else is sent. -/
def DeliversTo (env : Env H) (b : DdBroker H) (e : Event) (c : LocalClient) : Prop :=
  ∃ n, notificationOf env b e = some n ∧ n.dst = c.prefixName ∧
    ∃ b' s, step env b e = .done b' [.rsock c.sockid (ddMsg .data (s :: n.payload))]

/-- The source of a notification within one tenant is shown without it. -/
theorem shown_of_owned {tenant src : CStr} (h : Owned tenant src) (srcpublic : Bool) :
    ∃ s, shownSource srcpublic srcpublic src = some s := by
  have hdot : dot ∈ src.bytes := h.subset (List.mem_append_right _ (List.mem_singleton_self dot))
  have hkeeps : keepsTenant srcpublic srcpublic = false := by simp [keepsTenant]
  rw [shownSource, hkeeps]
  exact ⟨_, if_pos hdot⟩

/-- A destination without a tenant of its own is of the sender's, which is public when it is. -/
theorem resolve_snd {keys : DdBrokerKeys} {tenant dest : CStr}
    (h : ¬ (dest.startsWith publicDot ∨ tenant = publicName ∧ namesTenant keys dest)) :
    (resolve keys tenant dest).2 = decide (tenant = publicName) := by
  rw [not_or] at h
  unfold resolve
  simp only [if_neg h.1]
  split
  · next hten =>
    rw [if_neg fun hname => h.2 ⟨of_decide_eq_true hten, hname⟩, hten]
  · next hten => exact (Bool.eq_false_iff.mpr hten).symm

/-- **Every client is addressable within its tenant** when its name neither begins with `public.`
nor, for a public client, looks qualified. -/
theorem addressable_iff (hinj : Function.Injective env.xxh32) {cfg : Config}
    (h : Reachable env cfg b) {c ln : LocalClient} (hc : c ∈ b.lclCliHt.nodes)
    {payload : List Frame}
    (hsend : sendOf env b e = some (ln, c.name, payload)) (hten : ln.tenant = c.tenant) :
    DeliversTo env b e c ↔
      ¬ c.name.startsWith publicDot ∧ ¬ (c.tenant = publicName ∧ LooksQualified b.keys c.name) := by
  have hok := h.tablesOk hinj
  have hfull : joined 255 c.tenant c.name = c.prefixName := by
    rw [joined, ← hok.named c hc, CStr.truncate_of_le (hok.fits c hc)]
  have hnote : notificationOf env b e = some (resolved b.keys ln c.name payload) := by
    rw [notificationOf, hsend]
    rfl
  have hdst : (resolved b.keys ln c.name payload).dst =
      if c.name.startsWith publicDot ∨ c.tenant = publicName ∧ namesTenant b.keys c.name then c.name
      else c.prefixName := by
    rw [resolved, resolve_fst, hten, hfull]
  rw [← namesTenant_iff, ← not_or]
  constructor
  · rintro ⟨n, hn, hname, -⟩ hcond
    rw [hnote] at hn
    cases hn
    rw [hdst, if_pos hcond, hok.named c hc] at hname
    exact ne_qualified c.tenant c.name hname
  · intro hcond
    rw [if_neg hcond] at hdst
    refine ⟨_, hnote, hdst, b.touch ln, ?_⟩
    obtain ⟨sockid, cookie, -, -, hln, hstep⟩ := step_sendOf hsend
    have hrev : hashtableHasRevLocalNode env (b.touch ln) (resolve b.keys ln.tenant c.name).1 =
        some c := by
      rw [show (resolve b.keys ln.tenant c.name).1 = c.prefixName from hdst]
      exact ((hok.namesConsistent hinj (h.registryOk hinj)).found c hc).2
    obtain ⟨s, hs⟩ := shown_of_owned (hok.owned (hok.of_hasLocal hinj hln).1)
      (decide (ln.tenant = publicName))
    refine ⟨s.bytes, ?_⟩
    rw [hstep, resolve_snd (hten ▸ hcond), carry, hrev]
    simp only [deliver_eq, hs]
    rfl

theorem twoClients_sendOf :
    (runEvents plainEnv (ddBrokerNew _ demoConfig) (secondClient :: headRun)).map
    (fun b => decide (headClient ∈ b.lclCliHt.nodes ∧
      sendOf plainEnv b (sendToEvent [6] (cookieOf 65) (text "x")) =
        some (⟨text "d", text "a.d", text "a", cookieOf 65, [6]⟩, text "x", []))) = some true := by
  decide

/-- A client sends to another one of its tenant. -/
theorem addressable_twoClients : ∃ b : DdBroker (List UInt8), Reachable plainEnv demoConfig b ∧
    (DeliversTo plainEnv b (sendToEvent [6] (cookieOf 65) (text "x")) headClient ↔
      ¬ (text "x").startsWith publicDot ∧
        ¬ (text "a" = publicName ∧ LooksQualified b.keys (text "x"))) := by
  obtain ⟨b, hb, hfacts⟩ := Option.map_eq_some_iff.mp twoClients_sendOf
  obtain ⟨hmem, hsend⟩ := of_decide_eq_true hfacts
  have hreach : Reachable plainEnv demoConfig b := ⟨_, .of_runEvents hb⟩
  exact ⟨b, hreach, addressable_iff (fun _ _ h => h) hreach hmem hsend rfl⟩

/-- A client of the tenant `a` that is called `public.x`. -/
def publicNamed : LocalClient := ⟨text "public.x", text "a.public.x", text "a", cookieOf 65, [6]⟩

/-- It registers with another one. -/
def publicNamedRun : List Event :=
  .router (challokMsg [6] (cookieOf 65) (text "hashA") (text "public.x")) :: headRun

theorem publicNamedRun_sendOf : (runEvents plainEnv (ddBrokerNew _ demoConfig) publicNamedRun).map
    (fun b => decide (publicNamed ∈ b.lclCliHt.nodes ∧
      sendOf plainEnv b (sendToEvent [1, 2, 3, 4, 5] (cookieOf 65) (text "public.x")) =
        some (headClient, text "public.x", []))) = some true := by
  decide

/-- **Not every client is addressable**: `public.x` of the tenant `a` is not. -/
theorem not_addressable : ¬ ∀ (H : Type) [DecidableEq H] (env : Env H),
    Function.Injective env.xxh32 → ∀ (cfg : Config),
    (∀ hash ten, cfg.keys.tenant hash = some ten → dot ∉ ten.name.bytes) →
    ∀ (b : DdBroker H), Reachable env cfg b → ∀ (e : Event) (c ln : LocalClient)
    (payload : List Frame), c ∈ b.lclCliHt.nodes → sendOf env b e = some (ln, c.name, payload) →
    ln.tenant = c.tenant → DeliversTo env b e c := by
  intro hall
  obtain ⟨b, hb, hfacts⟩ := Option.map_eq_some_iff.mp publicNamedRun_sendOf
  obtain ⟨hmem, hsend⟩ := of_decide_eq_true hfacts
  have hrun : Run plainEnv demoConfig publicNamedRun b := .of_runEvents hb
  obtain ⟨n, hnote, hdst, -⟩ := hall _ plainEnv Function.injective_id demoConfig
    demoKeys_plain.dot_free b ⟨_, hrun⟩ _ publicNamed headClient [] hmem hsend rfl
  rw [notificationOf, hsend, Option.map_some, Option.some_or, hrun.keys, Option.some.injEq] at hnote
  rw [← hnote] at hdst
  exact absurd hdst (by decide)

end DoubleDecker
