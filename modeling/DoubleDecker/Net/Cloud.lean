import DoubleDecker.Broker.Routing
import Mathlib.Logic.Function.Basic

/-!
# Net/Cloud — notifications stay with their tenants

A `Cloud` is any number of brokers whose links promise nothing: a `FORWARD` that was sent may arrive
at any broker, from any peer, late, more than once or never.  Its runs include those of every tree
of brokers.  Every other message comes from outside and may be anything.

Nothing checks the tenants of a notification where it is delivered; they are right because
`s_cb_send` composed the two strings and every later hop passes them on (`Cloud.Traced`).
-/

namespace DoubleDecker

variable {ι H : Type} [DecidableEq ι] [DecidableEq H]

/-! ## Brokers and what they sent -/

/-- The `SEND` a notification stems from: where it was accepted and for whom, the destination it
gave and the payload. -/
structure Origin (ι : Type) where
  broker : ι
  sender : LocalClient
  dest : CStr
  payload : List Frame

/-- A message that was sent: by which broker, the state it had, and the `SEND` the message stems
from. -/
structure Sent (ι H : Type) where
  broker : ι
  state : DdBroker H
  msg : Send
  origin : Option (Origin ι)

/-- **The brokers, what they sent and the `SEND`s they accepted.** -/
structure Cloud (ι H : Type) where
  brokers : ι → DdBroker H
  sent : List (Sent ι H)
  accepted : List (Origin ι)

namespace Cloud

/-- The brokers at the start. -/
def init (H : Type) (cfg : ι → Config) : Cloud ι H where
  brokers i := ddBrokerNew H (cfg i)
  sent := []
  accepted := []

variable (env : Env H) (c : Cloud ι H) (i : ι) (e : Event)

/-- The `SEND` an event is. -/
def accepts : Option (Origin ι) :=
  (sendOf env (c.brokers i) e).map fun p => ⟨i, p.1, p.2.1, p.2.2⟩

/-- One broker handles an event on behalf of a `SEND`.  A broker that faults keeps its state; it may
have died, and then no event comes to it. -/
def act (origin : Option (Origin ι)) : Cloud ι H where
  brokers := Function.update c.brokers i
    ((step env (c.brokers i) e).broker.getD (c.brokers i))
  sent := c.sent ++ (step env (c.brokers i) e).sends.map fun x => ⟨i, c.brokers i, x, origin⟩
  accepted := c.accepted ++ (c.accepts env i e).toList

end Cloud

/-- A message one broker sent arrives as this event: at the router of a higher broker, under
whatever socket id, or at the dealer of a lower one. -/
def Send.Arrives (x : Send) (e : Event) : Prop :=
  (∃ source msg, x = .dsock msg ∧ e = .router (source :: msg)) ∨
  ∃ dest msg, x = .rsock dest msg ∧ e = .dealer msg

/-- **The events a broker may meet**, and the `SEND` behind each: from outside anything but a
`FORWARD` it takes, from the other brokers a `FORWARD` one of them sent. -/
inductive Cloud.Allows (env : Env H) (c : Cloud ι H) (i : ι) (e : Event) :
    Option (Origin ι) → Prop
  | outside : forwardOf env (c.brokers i) e = none → Allows env c i e (c.accepts env i e)
  | link {s : Sent ι H} : s ∈ c.sent → s.msg.cmd = some .forward → s.msg.Arrives e →
      Allows env c i e s.origin

/-- The states the brokers can reach. -/
inductive Cloud.Reachable (env : Env H) (cfg : ι → Config) : Cloud ι H → Prop
  | init : Reachable env cfg (.init H cfg)
  | act {c : Cloud ι H} {i : ι} {e : Event} {origin : Option (Origin ι)} :
      Reachable env cfg c → c.Allows env i e origin → Reachable env cfg (c.act env i e origin)

/-! ## Where notifications come from -/

/-- What `s_cb_send` made of a `SEND`. -/
def Origin.notification (cfg : ι → Config) (o : Origin ι) : Notification :=
  resolved (cfg o.broker).keys o.sender o.dest o.payload

/-- **Every notification has its `SEND`** — and carries the strings that were made of it. -/
structure Cloud.Traced (env : Env H) (cfg : ι → Config) (c : Cloud ι H) : Prop where
  tables : ∀ i, TablesOk env (c.brokers i)
  keys : ∀ i, (c.brokers i).keys = (cfg i).keys
  senders : ∀ o ∈ c.accepted, Owned o.sender.tenant o.sender.prefixName ∧
    ∃ hash ten, (cfg o.broker).keys.tenant hash = some ten ∧ ten.name = o.sender.tenant
  passes : ∀ s ∈ c.sent, s.msg.notifies →
    (TablesOk env s.state ∧ s.state.keys = (cfg s.broker).keys) ∧
    ∃ o ∈ c.accepted, s.origin = some o ∧ s.msg.Passes s.state (o.notification cfg)

omit [DecidableEq ι] [DecidableEq H] in
theorem Cloud.traced_init (env : Env H) (cfg : ι → Config) : (Cloud.init H cfg).Traced env cfg where
  tables i := tablesOk_new (cfg i)
  keys _ := rfl
  senders _ h := absurd h List.not_mem_nil
  passes _ h := absurd h List.not_mem_nil

section

variable {env : Env H} {cfg : ι → Config} {c : Cloud ι H} {i : ι} {e : Event}
  {origin : Option (Origin ι)}

omit [DecidableEq ι] in
/-- **A `FORWARD` brings the notification it was sent for.** -/
theorem notificationOf_of_arrives {self b : DdBroker H} {n n' : Notification} {x : Send}
    (hcmd : x.cmd = some .forward) (hp : x.Passes b n) (harr : x.Arrives e)
    (hn' : notificationOf env self e = some n') : n' = n := by
  obtain ⟨ln, -, -, s, rfl⟩ | ⟨dest, rfl⟩ | ⟨cookie, rfl⟩ := hp
  · rw [cmd_rsock] at hcmd
    cases hcmd
  · obtain ⟨source, msg, h, -⟩ | ⟨dest', msg, h, rfl⟩ := harr
    · cases h
    · cases h
      simp only [notificationOf, sendOf, forwardOf, dealerCmd_ddMsg, CStr.ofBytes_bytes,
        Option.map_none, Option.none_or, Option.some.injEq] at hn'
      exact hn'.symm
  · obtain ⟨source, msg, h, rfl⟩ | ⟨dest', msg, h, -⟩ := harr
    · cases h
      simp only [notificationOf, sendOf, forwardOf, routerCmd_ddMsg, CStr.ofBytes_bytes,
        Option.map_none, Option.none_or] at hn'
      split at hn'
      · rw [Option.some.injEq] at hn'
        exact hn'.symm
      · cases hn'
    · cases h

/-- **The notification an event brings is that of the `SEND` behind it.** -/
theorem Cloud.Traced.stems (h : c.Traced env cfg) (hal : c.Allows env i e origin)
    {n : Notification} (hn : notificationOf env (c.brokers i) e = some n) :
    ∃ o ∈ (c.act env i e origin).accepted, origin = some o ∧ o.notification cfg = n := by
  cases hal with
  | outside hforward =>
    rw [notificationOf, hforward, Option.or_none] at hn
    obtain ⟨⟨ln, dest, payload⟩, hsend, rfl⟩ := Option.map_eq_some_iff.mp hn
    have hacc : c.accepts env i e = some ⟨i, ln, dest, payload⟩ := by
      rw [accepts, hsend, Option.map_some]
    refine ⟨⟨i, ln, dest, payload⟩, ?_, hacc, ?_⟩
    · exact List.mem_append_right _ (by rw [hacc, Option.mem_toList])
    · rw [Origin.notification, ← h.keys i]
  | link hs hcmd harr =>
    obtain ⟨-, o, ho, horig, hp⟩ := h.passes _ hs (Or.inr hcmd)
    exact ⟨o, List.mem_append_left _ ho, horig, (notificationOf_of_arrives hcmd hp harr hn).symm⟩

omit [DecidableEq ι] in
/-- A `SEND` is accepted for a client of the broker. -/
theorem Cloud.Traced.accepts (hinj : Function.Injective env.xxh32) (h : c.Traced env cfg)
    {o : Origin ι} (ho : c.accepts env i e = some o) :
    Owned o.sender.tenant o.sender.prefixName ∧
    ∃ hash ten, (cfg o.broker).keys.tenant hash = some ten ∧ ten.name = o.sender.tenant := by
  obtain ⟨⟨ln, dest, payload⟩, hsend, rfl⟩ := Option.map_eq_some_iff.mp ho
  have hmem : ln ∈ (c.brokers i).lclCliHt.nodes := by
    unfold sendOf at hsend
    split at hsend
    · split at hsend
      · obtain ⟨ln', hacc, heq⟩ := Option.map_eq_some_iff.mp hsend
        cases heq
        exact ((h.tables i).of_hasLocal hinj (acceptedFor_eq_some.mp hacc)).1
      · cases hsend
    · cases hsend
  obtain ⟨hash, ten, hten, hname, -⟩ := (h.tables i).tenant ln hmem
  exact ⟨(h.tables i).owned hmem, hash, ten, by rwa [← h.keys i], hname⟩

/-- **Every step keeps the trace.** -/
theorem Cloud.Traced.act (hinj : Function.Injective env.xxh32) (h : c.Traced env cfg)
    (hal : c.Allows env i e origin) : (c.act env i e origin).Traced env cfg := by
  -- the broker that acts, whether it faults or not
  have hnext : TablesOk env ((step env (c.brokers i) e).broker.getD (c.brokers i)) ∧
      ((step env (c.brokers i) e).broker.getD (c.brokers i)).keys = (cfg i).keys := by
    cases hs : step env (c.brokers i) e with
    | done self' sends =>
      exact ⟨(h.tables i).step hinj hs, (step_frame hs).keys.trans (h.keys i)⟩
    | fault sends => exact ⟨h.tables i, h.keys i⟩
  refine ⟨fun j => ?_, fun j => ?_, fun o ho => ?_, fun s hs hn => ?_⟩
  · by_cases hj : j = i
    · subst hj
      simpa [Cloud.act] using hnext.1
    · simpa [Cloud.act, hj] using h.tables j
  · by_cases hj : j = i
    · subst hj
      simpa [Cloud.act] using hnext.2
    · simpa [Cloud.act, hj] using h.keys j
  · obtain ho | ho := List.mem_append.mp ho
    · exact h.senders o ho
    · exact h.accepts hinj (Option.mem_toList.mp ho)
  · obtain hs | hs := List.mem_append.mp hs
    · obtain ⟨hstate, o, ho, hrest⟩ := h.passes s hs hn
      exact ⟨hstate, o, List.mem_append_left _ ho, hrest⟩
    · obtain ⟨x, hx, rfl⟩ := List.mem_map.mp hs
      obtain ⟨n, hbrings, hp⟩ := step_passes hinj (h.tables i) hn hx
      obtain ⟨o, ho, horig, rfl⟩ := h.stems hal hbrings
      exact ⟨⟨h.tables i, h.keys i⟩, o, ho, horig, hp⟩

theorem Cloud.Reachable.traced (hinj : Function.Injective env.xxh32)
    (h : Cloud.Reachable env cfg c) : c.Traced env cfg := by
  induction h with
  | init => exact Cloud.traced_init env cfg
  | act _ hal ih => exact ih.act hinj hal

end

/-! ## Isolation -/

/-- A client of tenant `s` may notify one of tenant `r`. -/
def MayNotify (s r : CStr) : Prop := s = r ∨ s = publicName ∨ r = publicName

/-- **Isolation** — every `DATA` is for a client the sender of its `SEND` may notify, and every
`FORWARD` carries the strings of such a pair. -/
structure Cloud.Isolated (cfg : ι → Config) (c : Cloud ι H) : Prop where
  data : ∀ s ∈ c.sent, s.msg.cmd = some .data →
    ∃ r ∈ s.state.lclCliHt.nodes, ∃ o ∈ c.accepted, s.origin = some o ∧
      (∃ text, s.msg = .rsock r.sockid (ddMsg .data (text :: o.payload))) ∧
      (o.notification cfg).dst = r.prefixName ∧ MayNotify o.sender.tenant r.tenant
  forward : ∀ s ∈ c.sent, s.msg.cmd = some .forward →
    ∃ o ∈ c.accepted, s.origin = some o ∧ ∃ n, n = o.notification cfg ∧
      ((∃ dest, s.msg = .rsock dest (ddMsg .forward (n.src.bytes :: n.dst.bytes :: n.payload))) ∨
        ∃ cookie,
          s.msg = .dsock (ddMsg .forward (cookie :: n.src.bytes :: n.dst.bytes :: n.payload))) ∧
      n.src.before dot = o.sender.tenant ∧ MayNotify (n.src.before dot) (n.dst.before dot)

omit [DecidableEq ι] [DecidableEq H] in
/-- **The destination of a `SEND` belongs to a tenant its sender may notify.** -/
theorem Origin.mayNotify {cfg : ι → Config} {o : Origin ι} {hash : CStr} {ten : DdTenant}
    (hplain : (cfg o.broker).keys.Plain) (hten : (cfg o.broker).keys.tenant hash = some ten)
    (hname : ten.name = o.sender.tenant) :
    MayNotify o.sender.tenant ((o.notification cfg).dst.before dot) := by
  have hdot : dot ∉ o.sender.tenant.bytes := hname ▸ hplain.dot_free hash ten hten
  have hfits : o.sender.tenant.length < 255 := hname ▸ hplain.fits hash ten hten
  obtain h | h | h := resolve_spec (cfg o.broker).keys hfits o.dest
  · exact Or.inr (Or.inr (h.before (by decide)))
  · exact Or.inl (h.before hdot).symm
  · exact Or.inr (Or.inl h)

/-- **Notifications stay with their tenants.** -/
theorem notification_isolation {env : Env H} (hinj : Function.Injective env.xxh32)
    {cfg : ι → Config} (hplain : ∀ i, (cfg i).keys.Plain) {c : Cloud ι H}
    (h : Cloud.Reachable env cfg c) : c.Isolated cfg := by
  have htr := h.traced hinj
  refine ⟨fun s hs hcmd => ?_, fun s hs hcmd => ?_⟩
  · obtain ⟨⟨hok, hkeys⟩, o, ho, horig, hp⟩ := htr.passes s hs (Or.inl hcmd)
    obtain ⟨-, hash, ten, hten, hname⟩ := htr.senders o ho
    have hmay := o.mayNotify (hplain _) hten hname
    obtain ⟨r, hr, hdst, text, hmsg⟩ | ⟨dest, hmsg⟩ | ⟨cookie, hmsg⟩ := hp
    · obtain ⟨hash', ten', hten', hname', -⟩ := hok.tenant r hr
      have hdot : dot ∉ r.tenant.bytes :=
        hname' ▸ (hplain s.broker).dot_free hash' ten' (hkeys ▸ hten')
      rw [← hdst, (hok.owned hr).before hdot] at hmay
      exact ⟨r, hr, o, ho, horig, ⟨text, hmsg⟩, hdst.symm, hmay⟩
    · rw [hmsg, cmd_rsock] at hcmd
      cases hcmd
    · rw [hmsg, cmd_dsock] at hcmd
      cases hcmd
  · obtain ⟨-, o, ho, horig, hp⟩ := htr.passes s hs (Or.inr hcmd)
    obtain ⟨hown, hash, ten, hten, hname⟩ := htr.senders o ho
    have hdot : dot ∉ o.sender.tenant.bytes := hname ▸ (hplain _).dot_free hash ten hten
    have hsrc : (o.notification cfg).src.before dot = o.sender.tenant := hown.before hdot
    refine ⟨o, ho, horig, _, rfl, ?_, hsrc, hsrc ▸ o.mayNotify (hplain _) hten hname⟩
    obtain ⟨r, -, -, text, hmsg⟩ | h | h := hp
    · rw [hmsg, cmd_rsock] at hcmd
      cases hcmd
    · exact Or.inl h
    · exact Or.inr h

/-- A `SEND` of the client `a.d` to `a.x`. -/
def sendX : Event := .router ([6] :: ddMsg .send [(cookieOf 65).1, CStr.ascii "x", [7]])

/-- The one broker of `demoConfig` after its two clients registered and one notified the other. -/
def demoCloud : Cloud Unit (List UInt8) :=
  (headRun ++ [secondClient, sendX]).foldl
    (fun c e => c.act plainEnv () e (c.accepts plainEnv () e))
    (.init _ fun _ => demoConfig)

theorem demoCloud_delivers : demoCloud.sent.any fun s =>
    s.msg = .rsock [1, 2, 3, 4, 5] (ddMsg .data [CStr.ascii "d", [7]]) := by
  decide

theorem notification_isolation_demoCloud :
    (∃ s ∈ demoCloud.sent, s.msg = .rsock [1, 2, 3, 4, 5] (ddMsg .data [CStr.ascii "d", [7]])) ∧
    demoCloud.Isolated fun _ => demoConfig := by
  refine ⟨by simpa using demoCloud_delivers, ?_⟩
  refine @notification_isolation _ _ _ _ plainEnv (fun _ _ h => h) _ (fun _ => demoKeys_plain) _ ?_
  refine .act (.act (.act .init ?_) ?_) ?_ <;> exact .outside (by decide)

end DoubleDecker
