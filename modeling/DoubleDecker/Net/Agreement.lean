import DoubleDecker.Client.Keys
import DoubleDecker.Net.Cloud

/-!
# Net/Agreement — the keys of the two ends

A notification or a publication goes from its sender through any number of brokers to its receivers
(`Delivers`).  The sender chooses the key by the target, the receiver by the source string it is
shown; the two agree just when a bare name does not look foreign (`key_agreement`).
-/

namespace DoubleDecker

open Trie

variable {H : Type} [DecidableEq H] {env : Env H}

/-! ## Notifications -/

/-- **The handler of a notification routes it**, by the two strings alone. -/
def Routes (env : Env H) (self : DdBroker H) (e : Event) (n : Notification) : Prop :=
  ∃ (self' : DdBroker H) (nodst : Outcome H), SameTables self self' ∧
    (∀ x ∈ nodst.sends, x.cmd = some .error) ∧
    step env self e = carry env self' (n.src.startsWith publicDot) (n.dst.startsWith publicDot)
      n.src n.dst n.payload nodst

/-- `s_cb_send` routes by the strings it composes. -/
theorem send_routes (hinj : Function.Injective env.xxh32) {self : DdBroker H}
    (hok : TablesOk env self) (hplain : self.keys.Plain) {msg payload : List Frame}
    {source cookie dest : Frame} {ln : LocalClient}
    (hmsg : routerCmd msg = some (source, .send, cookie :: dest :: payload))
    (hln : acceptedFor env self source cookie = some ln) :
    Routes env self (.router msg) (resolved self.keys ln (CStr.ofBytes dest) payload) := by
  have hln := acceptedFor_eq_some.mp hln
  have hmem := (hok.of_hasLocal hinj hln).1
  obtain ⟨hdot, hfits⟩ := hok.plain hplain hmem
  have hsrc := hok.srcpublic hmem hdot
  have hpub := resolve_public self.keys hfits hdot (CStr.ofBytes dest)
  have heq := (@step_router _ _ env _ _ _ _ _ hmsg).trans (sCbSend_eq hln dest payload)
  rw [hsrc, ← hpub] at heq
  exact ⟨_, _, sameTables_touch self ln, fun _ => sendNodst_cmd, heq⟩

/-- **Every handler of a notification routes it.** -/
theorem routes_of_notificationOf (hinj : Function.Injective env.xxh32) {self : DdBroker H}
    (hok : TablesOk env self) (hplain : self.keys.Plain) {e : Event} {n : Notification}
    (h : notificationOf env self e = some n) : Routes env self e n := by
  obtain h | ⟨-, h⟩ := Option.or_eq_some_iff.mp h
  · obtain ⟨⟨ln, dest, payload⟩, hsend, rfl⟩ := Option.map_eq_some_iff.mp h
    unfold sendOf at hsend
    split at hsend
    · next msg =>
      split at hsend
      · next source cookie dest' payload' hmsg =>
        obtain ⟨ln', hacc, heq⟩ := Option.map_eq_some_iff.mp hsend
        cases heq
        exact send_routes hinj hok hplain hmsg hacc
      · cases hsend
    · cases hsend
  · unfold forwardOf at h
    split at h
    · next msg =>
      split at h
      · next source cookieFrame src dst payload hmsg =>
        split at h
        · next hfrom =>
          cases h
          obtain ⟨cookie, np, hc, hnp⟩ := fromBroker_eq_true.mp hfrom
          exact ⟨_, _, sameTables_touchBroker self np, fun _ => destInvalidRsock_cmd,
            (step_router hmsg).trans (sCbForwardRsock_eq hc hnp src dst payload)⟩
        · cases h
      · cases h
    · next msg =>
      split at h
      · next src dst payload hmsg =>
        cases h
        exact ⟨{ self with timeout := 0 }, _, (by constructor <;> rfl),
          fun _ => destInvalidDsock_cmd,
          (step_dealer hmsg).trans (sCbForwardDsock_eq _ src dst payload)⟩
      · cases h
    · cases h

/-- **Every `DATA` shows the source string of the notification.** -/
theorem step_data (hinj : Function.Injective env.xxh32) {self : DdBroker H}
    (hok : TablesOk env self) (hplain : self.keys.Plain) {e : Event} {x : Send}
    (hx : x ∈ (step env self e).sends) (hcmd : x.cmd = some .data) :
    ∃ n, notificationOf env self e = some n ∧ ∃ ln ∈ self.lclCliHt.nodes, ln.prefixName = n.dst ∧
      ∃ s, n.shown = some s ∧ x = .rsock ln.sockid (ddMsg .data (s.bytes :: n.payload)) := by
  obtain ⟨n, hn, -⟩ := step_passes hinj hok (Or.inl hcmd) hx
  refine ⟨n, hn, ?_⟩
  obtain ⟨self', nodst, hsame, hnodst, heq⟩ := routes_of_notificationOf hinj hok hplain hn
  rw [heq] at hx
  obtain ⟨ln, s, hln, hs, rfl⟩ | ⟨dn, -, -, rfl⟩ | ⟨-, -, ⟨-, hx⟩ | ⟨-, rfl⟩⟩ := carry_sends hx
  · obtain ⟨hmem, hname⟩ := (hsame.tablesOk hok).of_hasRev hinj hln
    exact ⟨ln, hsame.lclCliHt ▸ hmem, hname, s, hs, rfl⟩
  · rw [cmd_rsock] at hcmd
    cases hcmd
  · rw [hnodst x hx] at hcmd
    cases hcmd
  · rw [cmd_dsock] at hcmd
    cases hcmd

/-! ## From broker to broker -/

/-- A message between two brokers, and the event it is for the second one. -/
inductive Send.Hops : Send → Event → Prop
  | forward {x : Send} {e : Event} : x.cmd = some .forward → x.Arrives e → Hops x e
  | north (msg : List Frame) : Hops (.pubN msg) (.subS msg)
  | south (msg : List Frame) : Hops (.pubS msg) (.subN msg)

/-- **The messages an event leads to** — those its broker sends and, hop by hop, those other brokers
send for them.  `Q` holds of every broker on the way. -/
inductive Delivers (env : Env H) (Q : DdBroker H → Prop) :
    DdBroker H → Event → DdBroker H → Send → Prop
  | here {b : DdBroker H} {e : Event} {x : Send} : Q b → x ∈ (step env b e).sends →
      Delivers env Q b e b x
  | hop {b b' b'' : DdBroker H} {e e' : Event} {x y : Send} : Q b → y ∈ (step env b e).sends →
      y.Hops e' → Delivers env Q b' e' b'' x → Delivers env Q b e b'' x

/-- The broker at the start of the way. -/
theorem Delivers.first {Q : DdBroker H → Prop} {b b' : DdBroker H} {e : Event} {x : Send}
    (h : Delivers env Q b e b' x) : Q b := by
  cases h with
  | here hq _ => exact hq
  | hop hq _ _ _ => exact hq

/-- The broker at the end of the way. -/
theorem Delivers.last {Q : DdBroker H → Prop} {b b' : DdBroker H} {e : Event} {x : Send}
    (h : Delivers env Q b e b' x) : Q b' := by
  induction h with
  | here hq _ => exact hq
  | hop _ _ _ _ ih => exact ih

/-- **A notification arrives as it was composed**, however many brokers passed it on. -/
theorem Delivers.data (hinj : Function.Injective env.xxh32) {Q : DdBroker H → Prop}
    (hQ : ∀ b, Q b → TablesOk env b ∧ b.keys.Plain) {b b' : DdBroker H} {e : Event} {x : Send}
    {n : Notification} (h : Delivers env Q b e b' x) (hcmd : x.cmd = some .data)
    (hn : ∀ n', notificationOf env b e = some n' → n' = n) :
    ∃ ln ∈ b'.lclCliHt.nodes, ln.prefixName = n.dst ∧
      ∃ s, n.shown = some s ∧ x = .rsock ln.sockid (ddMsg .data (s.bytes :: n.payload)) := by
  induction h with
  | here hq hx =>
    obtain ⟨n', hn', hdata⟩ := step_data hinj (hQ _ hq).1 (hQ _ hq).2 hx hcmd
    exact hn n' hn' ▸ hdata
  | hop hq hy hhop _ ih =>
    refine ih hcmd fun n' hn' => ?_
    cases hhop with
    | forward hforward harr =>
      obtain ⟨n₁, hn₁, hp⟩ := step_passes hinj (hQ _ hq).1 (Or.inr hforward) hy
      exact (notificationOf_of_arrives hforward hp harr hn').trans (hn n₁ hn₁)
    | north msg => simp [notificationOf, sendOf, forwardOf] at hn'
    | south msg => simp [notificationOf, sendOf, forwardOf] at hn'

/-! ## Publications -/

variable (env) in
/-- The composed topic and the source string of the publication an event brings. -/
def publicationOf (self : DdBroker H) : Event → Option (CStr × CStr)
  | .router msg =>
    match routerCmd msg with
    | some (source, .pub, cookie :: topic :: _) =>
      (acceptedFor env self source cookie).map fun ln =>
        (composeTopic self ln (CStr.ofBytes topic)).2
    | _ => none
  | .subN (topic :: name :: _) | .subS (topic :: name :: _) =>
    some (CStr.ofBytes topic, CStr.ofBytes name)
  | _ => none

/-- **The messages of a publication** — it is sent on, or to the subscribers of its topic. -/
theorem publication_sends {self : DdBroker H} {e : Event} {x : Send} {p : CStr × CStr}
    (h : publicationOf env self e = some p) (hx : x ∈ (step env self e).sends) :
    (∃ payload, x.Relays p.1 p.2 payload) ∨ ∃ socks topic payload,
      nnTrieTree self.topicsTrie p.1.bytes = some socks ∧
        x ∈ pubLocally socks p.2 topic payload := by
  unfold publicationOf at h
  split at h
  · next msg =>
    split at h
    · next source cookie topicFrame rest hmsg =>
      obtain ⟨ln, hacc, rfl⟩ := Option.map_eq_some_iff.mp h
      rw [step_router hmsg] at hx
      obtain ⟨ln', _, _, topic, pubtopic, name, hm, -, hln', hcomp, hx⟩ :=
        @sCbPub_sends _ _ env self source cookie (topicFrame :: rest) x hx
      cases hm
      rw [acceptedFor_eq_some.mp hacc] at hln'
      cases hln'
      rw [hcomp]
      refine hx.imp (fun h => ⟨_, h⟩) ?_
      rintro ⟨socks, hsocks, hx⟩
      exact ⟨socks, topic, _, hsocks, hx⟩
    · cases h
  · next topicFrame nameFrame rest =>
    cases h
    rw [step] at hx
    obtain ⟨_, _, _, hm, hx⟩ := sOnSubNMsg_sends hx
    cases hm
    refine hx.imp (fun h => ⟨_, h⟩) ?_
    rintro ⟨socks, topic, hsocks, hx⟩
    exact ⟨socks, topic, _, hsocks, hx⟩
  · next topicFrame nameFrame rest =>
    cases h
    rw [step] at hx
    obtain ⟨_, _, _, hm, hx⟩ := sOnSubSMsg_sends hx
    cases hm
    refine hx.imp (fun h => ⟨_, h⟩) ?_
    rintro ⟨socks, topic, hsocks, hx⟩
    exact ⟨socks, topic, _, hsocks, hx⟩
  · cases h

/-- **A publication arrives with the strings it was composed with.** -/
theorem Delivers.pub {Q : DdBroker H → Prop} {b b' : DdBroker H} {e : Event} {x : Send}
    {p : CStr × CStr} (h : Delivers env Q b e b' x) (hcmd : x.cmd = some .pub)
    (hp : publicationOf env b e = some p) :
    ∃ socks topic payload, nnTrieTree b'.topicsTrie p.1.bytes = some socks ∧
      x ∈ pubLocally socks p.2 topic payload := by
  induction h with
  | here _ hx =>
    refine (publication_sends hp hx).resolve_left ?_
    rintro ⟨payload, hrelay⟩
    rw [hrelay.cmd] at hcmd
    cases hcmd
  | hop _ hy hhop _ ih =>
    refine ih hcmd ?_
    obtain ⟨payload, hrelay⟩ | ⟨socks, topic, payload, -, hlocal⟩ := publication_sends hp hy
    · cases hhop with
      | forward hforward harr =>
        rw [hrelay.cmd] at hforward
        cases hforward
      | north msg =>
        obtain ⟨pathv, h | h⟩ := hrelay
        · cases h
          simp [publicationOf]
        · cases h
      | south msg =>
        obtain ⟨pathv, h | h⟩ := hrelay
        · cases h
        · cases h
          simp [publicationOf]
    · obtain ⟨s, -, rfl⟩ := List.mem_map.mp hlocal
      cases hhop with
      | forward hforward harr =>
        rw [cmd_rsock] at hforward
        cases hforward

/-! ## What a client sends -/

/-- What an application asks its client to send: a notification for a target, or a publication on a
topic. -/
inductive Outgoing where
  | notify (target : CStr)
  | publish (topic : CStr)

namespace Outgoing

variable (env) in
/-- The messages `dd_notify` or `dd_publish` sends. -/
def sends (self : DdClient) (message : Frame) : Outgoing → List (List Frame)
  | notify target => (ddNotify env self target message).elim [] fun p => p.1.sends
  | publish topic => (ddPublish env self topic message).elim [] fun p => p.1.sends

/-- The key the message is encrypted with, if the call does not fail. -/
def key (keys : DdKeys) : Outgoing → Option Frame
  | notify target => some (notifyKey keys target)
  | publish topic => publishKey keys topic

/-- The command of the message its receivers get. -/
def answer : Outgoing → Cmd
  | notify _ => .data
  | publish _ => .pub

variable (env) in
/-- The steps that keep the receivers of a publication the subscribers of its tenant; a notification
needs no condition. -/
def safe : Outgoing → DdBroker H → Event → Bool
  | notify _ => fun _ _ => true
  | publish _ => isolationSafe env

/-- Whether the receiver is shown the bare name of the sender. -/
def bare (keys : DdBrokerKeys) (tenant : CStr) : Outgoing → Bool
  | notify target => !keepsTenant (decide (tenant = publicName)) (resolve keys tenant target).2
  | publish topic => !topic.startsWith publicDot

end Outgoing

/-- **A broker among clients of the key set** — reached by steps that meet the condition, with
matching keys; a socket is that of one client, and a client reads one key file. -/
structure KeySet.Serves (K : KeySet) (env : Env H) (cond : DdBroker H → Event → Bool)
    (b : DdBroker H) : Prop where
  reached : ∃ cfg es, RunIf env cfg cond es b ∧ K.Matches cfg.keys
  oneTenant : ∀ c ∈ b.lclCliHt.nodes, ∀ c' ∈ b.lclCliHt.nodes, c.sockid = c'.sockid →
    c.tenant = c'.tenant

namespace KeySet

variable {K : KeySet} {beforenm : Frame → Frame → Frame}

section

variable {cond : DdBroker H → Event → Bool} {b : DdBroker H}

theorem Serves.tablesOk (hinj : Function.Injective env.xxh32) (h : K.Serves env cond b) :
    TablesOk env b := by
  obtain ⟨_, es, hrun, -⟩ := h.reached
  exact Reachable.tablesOk hinj ⟨es, hrun.run⟩

theorem Serves.matches (h : K.Serves env cond b) : K.Matches b.keys := by
  obtain ⟨_, es, hrun, hmatch⟩ := h.reached
  exact hrun.run.keys ▸ hmatch

/-- The tenants of the clients are those of the key set. -/
theorem Serves.tenant_mem (hinj : Function.Injective env.xxh32) (h : K.Serves env cond b)
    {c : LocalClient} (hc : c ∈ b.lclCliHt.nodes) : c.tenant ∈ K.tenants := by
  obtain ⟨hash, ten, hten, hname, -⟩ := (h.tablesOk hinj).tenant c hc
  exact hname ▸ h.matches.named hash ten hten

end

/-! ## The sender's side -/

/-- **The sender of a notification reads the receiver's tenant off the target.** -/
theorem peer_target {keys : DdBrokerKeys} (hmatch : K.Matches keys) {t r : CStr}
    (ht : t ∈ K.tenants)
    (hr : r ∈ K.tenants) {target : CStr} (hown : Owned r (resolve keys t target).1) :
    K.peer t target = r := by
  have hdot := K.dot_free r hr
  unfold resolve at hown
  simp only at hown
  unfold peer
  split at hown
  · next hs =>
    have hpub : Owned publicName target := CStr.startsWith_iff.mp hs
    rw [if_pos hs, ← hown.before hdot, hpub.before (by decide)]
  · next hs =>
    have hjoined : Owned t (joined 255 t target) := owned_joined (K.fits t ht) target
    rw [if_neg hs]
    split at hown
    · next hpub =>
      have hpub : t = publicName := of_decide_eq_true hpub
      split at hown
      · next hnames =>
        -- the broker takes the target for a full name, and the receiver has it
        rw [namesTenant, Bool.and_eq_true, decide_eq_true_eq] at hnames
        rw [hown.before hdot, if_pos ⟨hpub, hnames.1, hr⟩]
      · next hnames =>
        rw [← hown.before hdot, hjoined.before (K.dot_free t ht), if_neg]
        rintro ⟨-, hmem, hten⟩
        refine hnames ?_
        rw [namesTenant, Bool.and_eq_true, decide_eq_true_eq, List.any_eq_true]
        exact ⟨hmem, _, (hmatch.listed _).mpr hten, startsWith_self _⟩
    · next hpub =>
      rw [if_neg fun h => hpub (decide_eq_true h.1), ← hown.before hdot,
        hjoined.before (K.dot_free t ht)]

/-! ## The receiver's side -/

/-- **What the receiver is shown** — the sender's full name when one of the two is public, or its
bare name when they are of one tenant. -/
inductive Shows (S R : LocalClient) (source : CStr) : Bool → Prop
  | full : Owned S.tenant source → R.tenant = publicName ∨ S.tenant = publicName →
      Shows S R source false
  | bare : source = S.name → R.tenant = S.tenant → Shows S R source true

/-- **The receiver reads the sender's tenant off the source just when no bare name looks
foreign.** -/
theorem Shows.peer_iff {S R : LocalClient} {source : CStr} {bare : Bool}
    (h : Shows S R source bare) (hS : S.tenant ∈ K.tenants) :
    K.peer R.tenant source = S.tenant ↔ ¬ (bare ∧ K.foreign S.tenant S.name) := by
  cases h with
  | full hown hpub => simp [peer_full hS hpub hown]
  | bare hsource hten => simp [hsource, hten, peer_bare_iff]

omit [DecidableEq H] in
/-- What stands after the first dot of a full name is the name. -/
theorem after_prefixName {self : DdBroker H} (hok : TablesOk env self) {c : LocalClient}
    (hc : c ∈ self.lclCliHt.nodes) (hdot : dot ∉ c.tenant.bytes) :
    c.prefixName.after dot = some c.name := by
  refine CStr.after_append hdot ?_
  rw [hok.named c hc, CStr.bytes_append, CStr.bytes_append, List.append_assoc]
  rfl

/-- A client whose tenant is `public` just when the first one's is, for a destination of the two. -/
theorem shows_notification {S R : LocalClient} {keys : DdBrokerKeys} {target source : CStr}
    {payload : List Frame} (hS : S.tenant ∈ K.tenants) (hR : R.tenant ∈ K.tenants)
    (hown : Owned S.tenant S.prefixName) (hafter : S.prefixName.after dot = some S.name)
    (hdst : Owned R.tenant (resolve keys S.tenant target).1)
    (hshown : (resolved keys S target payload).shown = some source) :
    Shows S R source ((Outgoing.notify target).bare keys S.tenant) := by
  have hdotS := K.dot_free _ hS
  have hdotR := K.dot_free _ hR
  have hsrc : S.prefixName.startsWith publicDot = decide (S.tenant = publicName) :=
    Bool.eq_iff_iff.mpr (by rw [decide_eq_true_eq, startsWith_publicDot_iff hown hdotS])
  have hpubR : (resolve keys S.tenant target).2 = decide (R.tenant = publicName) := by
    rw [← resolve_public keys (K.fits _ hS) hdotS]
    exact Bool.eq_iff_iff.mpr (by rw [decide_eq_true_eq, startsWith_publicDot_iff hdst hdotR])
  unfold Notification.shown shownSource resolved at hshown
  simp only [resolve_public keys (K.fits _ hS) hdotS, hsrc, hpubR] at hshown
  simp only [Outgoing.bare, hpubR]
  by_cases hkeep : keepsTenant (decide (S.tenant = publicName)) (decide (R.tenant = publicName))
  · rw [if_pos hkeep, Option.some.injEq] at hshown
    rw [hkeep]
    refine .full (hshown ▸ hown) ?_
    by_contra hno
    rw [not_or] at hno
    simp [keepsTenant, hno] at hkeep
  · rw [if_neg hkeep, hafter, Option.some.injEq] at hshown
    rw [Bool.not_eq_true] at hkeep
    rw [hkeep]
    refine .bare hshown.symm ?_
    -- both are public, or neither is and the destination is of the sender's tenant
    by_cases hpub : S.tenant = publicName
    · rw [hpub]
      by_contra hne
      simp [keepsTenant, hpub, hne] at hkeep
    · have hneR : R.tenant ≠ publicName := fun h => by simp [keepsTenant, hpub, h] at hkeep
      obtain h | h | h := resolve_spec keys (K.fits _ hS) target
      · exact absurd (((hdst.before hdotR).symm.trans (h.before (by decide)))) hneR
      · exact (hdst.before hdotR).symm.trans (h.before hdotS)
      · exact absurd h hpub

omit [DecidableEq H] in
/-- The source string of a publication. -/
theorem shows_publication {S R : LocalClient} (self : DdBroker H) {topic : CStr}
    (hown : Owned S.tenant S.prefixName) (hten : R.tenant = topicTenant S topic) :
    Shows S R (composeTopic self S topic).2.2
    ((Outgoing.publish topic).bare self.keys S.tenant) := by
  unfold topicTenant at hten
  unfold composeTopic
  simp only [Outgoing.bare]
  by_cases hpub : topic.startsWith publicDot
  · rw [if_pos hpub] at hten
    rw [if_pos hpub, hpub]
    exact .full hown (Or.inl hten)
  · rw [if_neg hpub] at hten
    rw [if_neg hpub, (Bool.not_eq_true _).mp hpub]
    exact .bare rfl hten

end KeySet

/-! ## Agreement -/

namespace Outgoing

variable {c : DdClient} {message : Frame}

omit [DecidableEq H] in
/-- The message of a notification. -/
theorem sends_notify {target : CStr} {m : List Frame}
    (h : m ∈ (notify target).sends env c message) :
    ∃ ciphertext, m = ddMsg .send [c.cookie.1, target.bytes, ciphertext] := by
  simp only [sends, ddNotify] at h
  split at h
  · simp only [Option.elim_some, sealFrame] at h
    exact ⟨_, List.mem_singleton.mp (List.mem_ite_nil_right.mp h).2⟩
  · exact absurd h List.not_mem_nil

omit [DecidableEq H] in
/-- The message of a publication. -/
theorem sends_publish {topic : CStr} {m : List Frame}
    (h : m ∈ (publish topic).sends env c message) :
    ∃ ciphertext, m = ddMsg .pub [c.cookie.1, topic.bytes, [], ciphertext] := by
  simp only [sends, ddPublish] at h
  split at h
  · exact absurd h List.not_mem_nil
  · split at h
    · simp only [Option.elim_some, sealFrame] at h
      exact ⟨_, List.mem_singleton.mp (List.mem_ite_nil_right.mp h).2⟩
    · exact absurd h List.not_mem_nil

end Outgoing

section

variable (hinj : Function.Injective env.xxh32) {K : KeySet} {beforenm : Frame → Frame → Frame}
  {b b' : DdBroker H} {S R : LocalClient} {c : DdClient} {message : Frame} {m : List Frame}
  {x : Send} {src : Frame} {rest : List Frame}

include hinj

/-- **A notification at its receiver** — the source string shows the sender, and the sender took the
receiver's tenant for the other side. -/
theorem notification_at_receiver {target : CStr}
    (hS : S ∈ b.lclCliHt.nodes) (hR : R ∈ b'.lclCliHt.nodes)
    (hcookie : c.cookie = S.cookie) (hm : m ∈ (Outgoing.notify target).sends env c message)
    (hdel : Delivers env (K.Serves env ((Outgoing.notify target).safe env)) b
      (.router (S.sockid :: m)) b' x)
    (hx : x = .rsock R.sockid (ddMsg .data (src :: rest))) :
    KeySet.Shows S R (CStr.ofBytes src) ((Outgoing.notify target).bare b.keys S.tenant) ∧
      notifyKey (K.ddKeys beforenm S.tenant) target = K.shared beforenm R.tenant S.tenant := by
  have hb := hdel.first
  have hlast := hdel.last
  have hok := hb.tablesOk hinj
  obtain ⟨ciphertext, rfl⟩ := Outgoing.sends_notify hm
  have hln : acceptedFor env b S.sockid c.cookie.1 = some S := by
    rw [acceptedFor_eq_some, hcookie]
    exact hok.hasLocal_self hinj hS
  have hn : notificationOf env b
      (.router (S.sockid :: ddMsg .send [c.cookie.1, target.bytes, ciphertext])) =
        some (resolved b.keys S target [ciphertext]) := by
    simp [notificationOf, sendOf, hln]
  obtain ⟨R', hR', hname, s, hs, hx'⟩ := hdel.data hinj
    (fun b hb => ⟨hb.tablesOk hinj, hb.matches.plain⟩) (by rw [hx, cmd_rsock])
    fun n' hn' => Option.some.inj (hn'.symm.trans hn)
  rw [hx] at hx'
  simp only [Send.rsock.injEq, ddMsg, List.cons.injEq, true_and] at hx'
  obtain ⟨hsock, rfl, -⟩ := hx'
  have hten : R.tenant = R'.tenant := hlast.oneTenant R hR R' hR' hsock
  have hStenant := hb.tenant_mem hinj hS
  have hRtenant := hlast.tenant_mem hinj hR
  have hdst : Owned R.tenant (resolve b.keys S.tenant target).1 := by
    rw [hten, ← show R'.prefixName = (resolve b.keys S.tenant target).1 from hname]
    exact (hlast.tablesOk hinj).owned hR'
  refine ⟨?_, ?_⟩
  · rw [CStr.ofBytes_bytes]
    exact KeySet.shows_notification hStenant hRtenant (hok.owned hS)
      (KeySet.after_prefixName hok hS (K.dot_free _ hStenant)) hdst hs
  · rw [KeySet.notifyKey_ddKeys, KeySet.peer_target hb.matches hStenant hRtenant hdst]

/-- **A publication at its receiver.** -/
theorem publication_at_receiver {topic : CStr} {key : Frame}
    (hS : S ∈ b.lclCliHt.nodes) (hR : R ∈ b'.lclCliHt.nodes)
    (hcookie : c.cookie = S.cookie) (hm : m ∈ (Outgoing.publish topic).sends env c message)
    (hdel : Delivers env (K.Serves env ((Outgoing.publish topic).safe env)) b
      (.router (S.sockid :: m)) b' x)
    (hx : x = .rsock R.sockid (ddMsg .pub (src :: rest)))
    (hkey : publishKey (K.ddKeys beforenm S.tenant) topic = some key) :
    KeySet.Shows S R (CStr.ofBytes src) ((Outgoing.publish topic).bare b.keys S.tenant) ∧
      key = K.shared beforenm R.tenant S.tenant := by
  have hb := hdel.first
  have hlast := hdel.last
  have hok := hb.tablesOk hinj
  obtain ⟨ciphertext, rfl⟩ := Outgoing.sends_publish hm
  have hln : acceptedFor env b S.sockid c.cookie.1 = some S := by
    rw [acceptedFor_eq_some, hcookie]
    exact hok.hasLocal_self hinj hS
  have hp : publicationOf env b
      (.router (S.sockid :: ddMsg .pub [c.cookie.1, topic.bytes, [], ciphertext])) =
        some (composeTopic b S topic).2 := by
    simp [publicationOf, hln]
  obtain ⟨socks, topic', payload, hsocks, hlocal⟩ := hdel.pub (by rw [hx, cmd_rsock]) hp
  -- the subscriber found in the trie is registered under the tenant of the topic
  obtain ⟨cfg, es, hrun, -⟩ := hlast.reached
  have hstores : StoresOk b' := hrun.storesOk hinj fun b e h => by
    rw [Outgoing.safe, isolationSafe, Bool.and_eq_true] at h
    exact h.1
  have howned : SubsOwned b' := hrun.subsOwned hinj (hrun.run.keys ▸ hlast.matches.plain)
  obtain ⟨R', hR', ⟨body, hbody⟩, htop⟩ :=
    howned.of_tree (hlast.tablesOk hinj) hstores hlast.matches.plain hsocks hlocal
  rw [hx, Send.rsock.injEq] at hbody
  have hStenant := hb.tenant_mem hinj hS
  have hten : R.tenant = topicTenant S topic := by
    rw [hlast.oneTenant R hR R' hR' hbody.1, htop]
    exact before_composeTopic b topic (K.dot_free _ hStenant) (K.fits _ hStenant)
  obtain ⟨s, -, hx'⟩ := List.mem_map.mp hlocal
  rw [hx] at hx'
  simp only [Send.rsock.injEq, ddMsg, List.cons.injEq, true_and] at hx'
  obtain ⟨-, rfl, -⟩ := hx'
  refine ⟨?_, ?_⟩
  · rw [CStr.ofBytes_bytes]
    exact KeySet.shows_publication b (hok.owned hS) hten
  · rw [KeySet.publishKey_ddKeys hkey, hten, topicTenant]

/-- **Key agreement** — the receiver of a notification or publication, at whatever broker, decrypts
with the sender's key when the sender's bare name, if it is shown, does not look foreign; and only
then, where different pairs of tenants have different shared keys. -/
theorem key_agreement (hsym : K.Symmetric beforenm) {o : Outgoing} {key : Frame}
    (hS : S ∈ b.lclCliHt.nodes) (hR : R ∈ b'.lclCliHt.nodes)
    (hkeys : c.keys = K.ddKeys beforenm S.tenant) (hcookie : c.cookie = S.cookie)
    (hkey : o.key c.keys = some key) (hm : m ∈ o.sends env c message)
    (hdel : Delivers env (K.Serves env (o.safe env)) b (.router (S.sockid :: m)) b' x)
    (hx : x = .rsock R.sockid (ddMsg o.answer (src :: rest))) :
    (¬ (o.bare b.keys S.tenant ∧ K.foreign S.tenant S.name) →
      sourceKey (K.ddKeys beforenm R.tenant) (CStr.ofBytes src) = key) ∧
    (K.Distinct beforenm → sourceKey (K.ddKeys beforenm R.tenant) (CStr.ofBytes src) = key →
      ¬ (o.bare b.keys S.tenant ∧ K.foreign S.tenant S.name)) := by
  have hStenant := hdel.first.tenant_mem hinj hS
  have hRtenant := hdel.last.tenant_mem hinj hR
  have hboth : KeySet.Shows S R (CStr.ofBytes src) (o.bare b.keys S.tenant) ∧
      key = K.shared beforenm R.tenant S.tenant := by
    rw [hkeys] at hkey
    cases o with
    | notify target =>
      obtain ⟨hshows, hshared⟩ := notification_at_receiver hinj hS hR hcookie hm hdel hx
      exact ⟨hshows, (Option.some.inj hkey).symm.trans hshared⟩
    | publish topic => exact publication_at_receiver hinj hS hR hcookie hm hdel hx hkey
  obtain ⟨hshows, rfl⟩ := hboth
  rw [KeySet.sourceKey_ddKeys, ← hshows.peer_iff hStenant]
  exact KeySet.shared_eq_iff hsym hStenant hRtenant (KeySet.peer_mem hRtenant _)

end

/-! ### A client named like a public one -/

/-- Key pairs for the tenants of `demoKeys`. -/
def demoKeySet : KeySet where
  tenants := [text "a", text "b", publicName]
  publicKey t := if t = text "a" then [1] else if t = text "b" then [2] else [4]
  secretKey t := if t = text "a" then [1] else if t = text "b" then [2] else [4]
  ddPublicKey := [8]
  hash t := if t = text "a" then text "hashA" else if t = text "b" then text "hashB"
    else text "hashP"
  mem_public := by decide
  dot_free := by decide
  fits := by decide

/-- A symmetric `crypto_box_beforenm`: the sum of the two keys. -/
def sumBeforenm (a b : Frame) : Frame := List.zipWith (· + ·) a b

theorem demoKeySet_symmetric : demoKeySet.Symmetric sumBeforenm := by
  unfold KeySet.Symmetric
  decide

theorem demoKeySet_matches : demoKeySet.Matches demoKeys := by
  have hall : ∀ p ∈ demoKeys.tenantkeys, p.2.name ∈ demoKeySet.tenants := by decide
  exact ⟨fun _ => Iff.rfl, fun hash ten h => hall _ (DdBrokerKeys.mem_of_tenant h)⟩

/-- A registered client of the tenant `a`. -/
def clientA : DdClient where
  clientName := text "d"
  timeout := 0
  state := .registered
  loop := Zloop.empty.timer .sHeartbeat
  registrationLoop := 0
  heartbeatLoop := 1
  cookie := cookieOf 65
  keys := demoKeySet.ddKeys sumBeforenm (text "a")
  sublist := .empty
  nonce := []

/-- The `CHALLOK` of a second client of the tenant `a` under a name. -/
def secondNamed (name : CStr) : Event := .router (challokMsg [6] (cookieOf 65) (text "hashA") name)

/-- The entry of that client. -/
def secondEntry (name : CStr) : LocalClient := ⟨name, text "a." ++ name, text "a", cookieOf 65, [6]⟩

/-- The entry of the first one. -/
def firstEntry : LocalClient := ⟨text "x", text "a.x", text "a", cookieOf 65, [1, 2, 3, 4, 5]⟩

/-- The second client's notification of the first one, as it is sent. -/
def notifyX : List Frame := ddMsg .send [(cookieOf 65).1, CStr.ascii "x", [7]]

theorem notifyX_sent : notifyX ∈ (Outgoing.notify (text "x")).sends plainEnv clientA [7] := by
  decide

/-- The notification at the first client. -/
def dataFrom (name : CStr) : Send := .rsock firstEntry.sockid (ddMsg .data [name.bytes, [7]])

/-- What the demonstrations need to know of the run. -/
def secondRun (name : CStr) : Option (List LocalClient × Bool) :=
  (runEvents plainEnv (ddBrokerNew _ demoConfig) (secondNamed name :: headRun)).map fun b =>
    (b.lclCliHt.nodes, decide (dataFrom name ∈ (step plainEnv b (.router ([6] :: notifyX))).sends))

/-- No condition is met by every run. -/
theorem meets_true (self : DdBroker H) (es : List Event) : meets env (fun _ _ => true) self es := by
  induction es with
  | nil => rfl
  | cons e es ih => simp [meets, ih]

/-- The second client's notification is delivered. -/
theorem demo_delivers {name : CStr} {b : DdBroker (List UInt8)}
    (hb : runEvents plainEnv (ddBrokerNew _ demoConfig) (secondNamed name :: headRun) = some b)
    (hclients : b.lclCliHt.nodes = [firstEntry, secondEntry name])
    (hsend : dataFrom name ∈ (step plainEnv b (.router ([6] :: notifyX))).sends) :
    Delivers plainEnv (demoKeySet.Serves plainEnv ((Outgoing.notify (text "x")).safe plainEnv)) b
      (.router ((secondEntry name).sockid :: notifyX)) b (dataFrom name) := by
  refine .here ⟨⟨demoConfig, _, .of_runEvents (meets_true _ _) hb,
    demoKeySet_matches⟩, ?_⟩ hsend
  rw [hclients]
  simp [firstEntry, secondEntry]

theorem secondRun_d : secondRun (text "d") = some ([firstEntry, secondEntry (text "d")], true) := by
  decide

/-- The client `d` and its receiver have the same key. -/
theorem key_agreement_d :
    sourceKey (demoKeySet.ddKeys sumBeforenm firstEntry.tenant) (CStr.ofBytes (text "d").bytes) =
      notifyKey clientA.keys (text "x") := by
  obtain ⟨b, hb, hfacts⟩ := Option.map_eq_some_iff.mp secondRun_d
  obtain ⟨hclients, hsend⟩ := Prod.mk.inj hfacts
  exact (key_agreement Function.injective_id demoKeySet_symmetric
    (hclients ▸ by simp : secondEntry (text "d") ∈ b.lclCliHt.nodes)
    (hclients ▸ by simp : firstEntry ∈ b.lclCliHt.nodes) (c := clientA) rfl rfl rfl notifyX_sent
    (demo_delivers hb hclients (of_decide_eq_true hsend)) rfl).1 fun h => absurd h.2 (by decide)

theorem secondRun_public : secondRun (text "public.d") =
    some ([firstEntry, secondEntry (text "public.d")], true) := by
  decide

/-- **The two ends do not always agree on the key** — a client whose name starts with `public.` is
taken for one of that tenant. -/
theorem not_key_agreement : ¬ ∀ (H : Type) [DecidableEq H] (env : Env H),
    Function.Injective env.xxh32 → ∀ (K : KeySet) (beforenm : Frame → Frame → Frame),
    K.Symmetric beforenm → ∀ (o : Outgoing) (b b' : DdBroker H) (S R : LocalClient) (c : DdClient)
      (message src : Frame) (m rest : List Frame) (x : Send) (key : Frame),
    S ∈ b.lclCliHt.nodes → R ∈ b'.lclCliHt.nodes → c.keys = K.ddKeys beforenm S.tenant →
    c.cookie = S.cookie → o.key c.keys = some key → m ∈ o.sends env c message →
    Delivers env (K.Serves env (o.safe env)) b (.router (S.sockid :: m)) b' x →
    x = .rsock R.sockid (ddMsg o.answer (src :: rest)) →
    sourceKey (K.ddKeys beforenm R.tenant) (CStr.ofBytes src) = key := by
  intro hall
  obtain ⟨b, hb, hfacts⟩ := Option.map_eq_some_iff.mp secondRun_public
  obtain ⟨hclients, hsend⟩ := Prod.mk.inj hfacts
  have hagree := hall _ plainEnv Function.injective_id demoKeySet sumBeforenm demoKeySet_symmetric
    (.notify (text "x")) b b (secondEntry (text "public.d")) firstEntry clientA [7]
    (text "public.d").bytes notifyX [[7]] (dataFrom (text "public.d")) _
    (by rw [hclients]; simp) (by rw [hclients]; simp) rfl rfl rfl notifyX_sent
    (demo_delivers hb hclients (of_decide_eq_true hsend)) rfl
  exact absurd hagree (by decide)

end DoubleDecker
