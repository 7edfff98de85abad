import DoubleDecker.Broker.Isolation

/-!
# Broker/Routing — one rule for three handlers

`s_cb_send`, `s_cb_forward_rsock` and `s_cb_forward_dsock` all look a destination up among the local
clients, then among the distant ones, and pass the notification on accordingly (`carry`); they
differ in how they find out which of the two sides is public.
-/

namespace DoubleDecker

open Trie

variable {H : Type} [DecidableEq H] {env : Env H}

/-! ## The rule -/

variable (env) in
/-- **The routing of a notification** — to a local client, down to the broker of a distant one, else
up; `nodst` is what the root does. -/
def carry (self : DdBroker H) (srcpublic dstpublic : Bool) (src dst : CStr) (payload : List Frame)
    (nodst : Outcome H) : Outcome H :=
  match hashtableHasRevLocalNode env self dst with
  | some ln => deliver self ln srcpublic dstpublic src payload
  | none =>
    match hashtableHasDistNode env self dst with
    | some dn => .done self (forwardDown src dst dn.broker payload)
    | none => if self.state = .root then nodst else .done self (forwardUp self src dst payload)

/-- `s_cb_forward_dsock` routes. -/
theorem sCbForwardDsock_eq (self : DdBroker H) (src dst : Frame) (payload : List Frame) :
    sCbForwardDsock env self (src :: dst :: payload) =
      carry env self ((CStr.ofBytes src).startsWith publicDot)
        ((CStr.ofBytes dst).startsWith publicDot) (CStr.ofBytes src) (CStr.ofBytes dst) payload
        (destInvalidDsock (CStr.ofBytes src) (CStr.ofBytes dst)) := rfl

/-- `s_cb_forward_rsock` routes what a registered broker sent. -/
theorem sCbForwardRsock_eq {self : DdBroker H} {sockid cookieFrame : Frame} {cookie : Cookie}
    {np : LocalBroker} (hcookie : readCookie cookieFrame = some cookie)
    (hnp : hashtableHasLocalBroker env self sockid cookie = some (some np)) (src dst : Frame)
    (payload : List Frame) :
    sCbForwardRsock env self sockid cookieFrame (src :: dst :: payload) =
      carry env (self.touchBroker np) ((CStr.ofBytes src).startsWith publicDot)
        ((CStr.ofBytes dst).startsWith publicDot) (CStr.ofBytes src) (CStr.ofBytes dst) payload
        (.done (self.touchBroker np)
          (destInvalidRsock sockid (CStr.ofBytes src) (CStr.ofBytes dst))) := by
  simp only [sCbForwardRsock, hcookie, hnp]
  rfl

/-- What `s_cb_send` answers at the root when nobody has the destination. -/
def sendNodst {H : Type} (self : DdBroker H) (sockid : Frame) (srcpublic dstpublic : Bool)
    (src dst : CStr) : Outcome H :=
  if keepsTenant srcpublic dstpublic then .done self (destInvalidRsock sockid src dst)
  else
    match src.after dot, dst.after dot with
    | some src, some dst => .done self (destInvalidRsock sockid src dst)
    | _, _ => .fault []

/-- `s_cb_send` routes what a registered client sent. -/
theorem sCbSend_eq {self : DdBroker H} {sockid cookie : Frame} {ln : LocalClient}
    (hln : hashtableHasLocalNode env self sockid cookie = some (some ln)) (dest : Frame)
    (payload : List Frame) :
    sCbSend env self sockid cookie (dest :: payload) =
      carry env (self.touch ln) (decide (ln.tenant = publicName))
        (resolve self.keys ln.tenant (CStr.ofBytes dest)).2 ln.prefixName
        (resolve self.keys ln.tenant (CStr.ofBytes dest)).1 payload
        (sendNodst (self.touch ln) sockid (decide (ln.tenant = publicName))
          (resolve self.keys ln.tenant (CStr.ofBytes dest)).2 ln.prefixName
          (resolve self.keys ln.tenant (CStr.ofBytes dest)).1) := by
  simp only [sCbSend, zmsgPopstr, hln]
  rfl

/-! ## What routing sends -/

/-- The source string of a notification at its receiver: with the tenant, or what follows its first
dot. -/
def shownSource (srcpublic dstpublic : Bool) (src : CStr) : Option CStr :=
  if keepsTenant srcpublic dstpublic then some src else src.after dot

omit [DecidableEq H] in
/-- The one message of a delivery. -/
theorem deliver_eq (self : DdBroker H) (ln : LocalClient) (srcpublic dstpublic : Bool) (src : CStr)
    (payload : List Frame) : deliver self ln srcpublic dstpublic src payload =
      match shownSource srcpublic dstpublic src with
      | some s => .done self [.rsock ln.sockid (ddMsg .data (s.bytes :: payload))]
      | none => .fault [] := by
  unfold deliver shownSource
  split
  · rfl
  · split <;> simp_all [forwardLocally]

/-- **The messages of routing** — a `DATA` to the local client with the name, or a `FORWARD` of the
same strings to the broker of the distant one, or up. -/
theorem carry_sends {self : DdBroker H} {srcpublic dstpublic : Bool} {src dst : CStr}
    {payload : List Frame} {nodst : Outcome H} {x : Send}
    (hx : x ∈ (carry env self srcpublic dstpublic src dst payload nodst).sends) :
    (∃ ln s, hashtableHasRevLocalNode env self dst = some ln ∧
      shownSource srcpublic dstpublic src = some s ∧
      x = .rsock ln.sockid (ddMsg .data (s.bytes :: payload))) ∨
    (∃ dn, hashtableHasRevLocalNode env self dst = none ∧
      hashtableHasDistNode env self dst = some dn ∧
      x = .rsock dn.broker (ddMsg .forward (src.bytes :: dst.bytes :: payload))) ∨
    (hashtableHasRevLocalNode env self dst = none ∧ hashtableHasDistNode env self dst = none ∧
      ((self.state = .root ∧ x ∈ nodst.sends) ∨ (self.state = .registered ∧
        x = .dsock (ddMsg .forward
          (self.keys.cookie.1 :: src.bytes :: dst.bytes :: payload))))) := by
  unfold carry at hx
  cases hrev : hashtableHasRevLocalNode env self dst with
  | some ln =>
    rw [hrev] at hx
    simp only [deliver_eq] at hx
    cases hs : shownSource srcpublic dstpublic src with
    | none =>
      rw [hs] at hx
      exact absurd hx List.not_mem_nil
    | some s =>
      rw [hs] at hx
      exact Or.inl ⟨ln, s, rfl, rfl, List.mem_singleton.mp hx⟩
  | none =>
    rw [hrev] at hx
    cases hdist : hashtableHasDistNode env self dst with
    | some dn =>
      simp only [hdist] at hx
      exact Or.inr (Or.inl ⟨dn, rfl, rfl, List.mem_singleton.mp hx⟩)
    | none =>
      simp only [hdist] at hx
      refine Or.inr (Or.inr ⟨rfl, rfl, ?_⟩)
      split at hx
      · next hroot => exact Or.inl ⟨hroot, hx⟩
      · simp only [Outcome.sends, forwardUp] at hx
        split at hx
        · next hreg => exact Or.inr ⟨hreg, List.mem_singleton.mp hx⟩
        · exact absurd hx List.not_mem_nil

omit [DecidableEq H] in
theorem sendNodst_cmd {self : DdBroker H} {sockid : Frame} {srcpublic dstpublic : Bool}
    {src dst : CStr} {x : Send}
    (hx : x ∈ (sendNodst self sockid srcpublic dstpublic src dst).sends) :
    x.cmd = some .error := by
  unfold sendNodst at hx
  split at hx
  · rw [List.mem_singleton.mp hx]; exact cmd_rsock _ _ _
  · split at hx
    · rw [List.mem_singleton.mp hx]; exact cmd_rsock _ _ _
    · exact absurd hx List.not_mem_nil

/-! ## Who sends notifications -/

/-- The strings and the payload of a notification. -/
structure Notification where
  src : CStr
  dst : CStr
  payload : List Frame
  deriving DecidableEq

/-- The source string at the receiver of a notification. -/
def Notification.shown (n : Notification) : Option CStr :=
  shownSource (n.src.startsWith publicDot) (n.dst.startsWith publicDot) n.src

variable (env) in
/-- The `SEND` an event is, when it is accepted for a client: the client, the destination it gives
and the payload. -/
def sendOf (self : DdBroker H) : Event → Option (LocalClient × CStr × List Frame)
  | .router msg =>
    match routerCmd msg with
    | some (source, .send, cookie :: dest :: payload) =>
      (acceptedFor env self source cookie).map fun ln => (ln, CStr.ofBytes dest, payload)
    | _ => none
  | _ => none

variable (env) in
/-- The `FORWARD` an event is, when it comes from the higher broker or a registered lower one. -/
def forwardOf (self : DdBroker H) : Event → Option Notification
  | .router msg =>
    match routerCmd msg with
    | some (source, .forward, cookie :: src :: dst :: payload) =>
      if fromBroker env self source cookie then
        some ⟨CStr.ofBytes src, CStr.ofBytes dst, payload⟩ else none
    | _ => none
  | .dealer msg =>
    match dealerCmd msg with
    | some (.forward, src :: dst :: payload) =>
      some ⟨CStr.ofBytes src, CStr.ofBytes dst, payload⟩
    | _ => none
  | _ => none

/-- What `s_cb_send` makes of a `SEND`. -/
def resolved (keys : DdBrokerKeys) (ln : LocalClient) (dest : CStr) (payload : List Frame) :
    Notification :=
  ⟨ln.prefixName, (resolve keys ln.tenant dest).1, payload⟩

variable (env) in
/-- The notification an event brings to a broker. -/
def notificationOf (self : DdBroker H) (e : Event) : Option Notification :=
  ((sendOf env self e).map fun p => resolved self.keys p.1 p.2.1 p.2.2).or (forwardOf env self e)

/-- **A message on behalf of a notification** — its delivery to the local client of that name, or
its `FORWARD`. -/
def Send.Passes {H : Type} (self : DdBroker H) (n : Notification) (x : Send) : Prop :=
  (∃ ln ∈ self.lclCliHt.nodes, ln.prefixName = n.dst ∧
    ∃ s, x = .rsock ln.sockid (ddMsg .data (s :: n.payload))) ∨
  (∃ dest, x = .rsock dest (ddMsg .forward (n.src.bytes :: n.dst.bytes :: n.payload))) ∨
  ∃ cookie, x = .dsock (ddMsg .forward (cookie :: n.src.bytes :: n.dst.bytes :: n.payload))

/-- The commands that carry notifications. -/
def Send.notifies (x : Send) : Prop := x.cmd = some .data ∨ x.cmd = some .forward

theorem not_notifies_error {x : Send} (h : x.cmd = some .error) : ¬ x.notifies := by
  rintro (h' | h') <;> rw [h] at h' <;> cases h'

theorem carry_passes (hinj : Function.Injective env.xxh32) {self : DdBroker H}
    (hok : TablesOk env self) {srcpublic dstpublic : Bool} {n : Notification} {nodst : Outcome H}
    (hnodst : ∀ x ∈ nodst.sends, x.cmd = some .error) {x : Send} (hn : x.notifies)
    (hx : x ∈ (carry env self srcpublic dstpublic n.src n.dst n.payload nodst).sends) :
    x.Passes self n := by
  obtain ⟨ln, s, hln, -, rfl⟩ | ⟨dn, -, -, rfl⟩ | ⟨-, -, ⟨-, hx⟩ | ⟨-, rfl⟩⟩ := carry_sends hx
  · obtain ⟨hmem, hname⟩ := hok.of_hasRev hinj hln
    exact Or.inl ⟨ln, hmem, hname, s.bytes, rfl⟩
  · exact Or.inr (Or.inl ⟨dn.broker, rfl⟩)
  · exact absurd hn (not_notifies_error (hnodst x hx))
  · exact Or.inr (Or.inr ⟨_, rfl⟩)

omit [DecidableEq H] in
/-- The answers to a destination nobody has. -/
theorem destInvalidRsock_cmd {self : DdBroker H} {sockid : Frame} {src dst : CStr} {x : Send}
    (hx : x ∈ (Outcome.done self (destInvalidRsock sockid src dst)).sends) :
    x.cmd = some .error := by
  rw [List.mem_singleton.mp hx]
  exact cmd_rsock _ _ _

omit [DecidableEq H] in
theorem destInvalidDsock_cmd {src dst : CStr} {x : Send}
    (hx : x ∈ (destInvalidDsock src dst : Outcome H).sends) : x.cmd = some .error :=
  absurd hx List.not_mem_nil

/-- The notifications of a `SEND`. -/
theorem send_passes (hinj : Function.Injective env.xxh32) {self : DdBroker H}
    (hok : TablesOk env self) {sockid cookie : Frame} {msg : List Frame} {x : Send}
    (hn : x.notifies) (hx : x ∈ (sCbSend env self sockid cookie msg).sends) :
    ∃ ln dest payload, msg = dest :: payload ∧ acceptedFor env self sockid cookie = some ln ∧
      x.Passes self (resolved self.keys ln (CStr.ofBytes dest) payload) := by
  cases hln : hashtableHasLocalNode env self sockid cookie with
  | none =>
    simp only [sCbSend, hln] at hx
    exact absurd hx List.not_mem_nil
  | some o =>
    cases o with
    | none =>
      simp only [sCbSend, hln] at hx
      exact absurd hx List.not_mem_nil
    | some ln =>
      cases msg with
      | nil =>
        simp only [sCbSend, hln, zmsgPopstr] at hx
        exact absurd hx List.not_mem_nil
      | cons dest payload =>
        rw [sCbSend_eq hln] at hx
        refine ⟨ln, dest, payload, rfl, acceptedFor_eq_some.mpr hln, ?_⟩
        exact carry_passes hinj ((sameTables_touch self ln).tablesOk hok)
          (n := resolved self.keys ln (CStr.ofBytes dest) payload) (fun _ => sendNodst_cmd) hn hx

/-- The notifications of a `FORWARD` from below. -/
theorem forward_rsock_passes (hinj : Function.Injective env.xxh32) {self : DdBroker H}
    (hok : TablesOk env self) {sockid cookieFrame : Frame} {msg : List Frame} {x : Send}
    (hn : x.notifies) (hx : x ∈ (sCbForwardRsock env self sockid cookieFrame msg).sends) :
    ∃ src dst payload, msg = src :: dst :: payload ∧
      fromBroker env self sockid cookieFrame ∧
      x.Passes self ⟨CStr.ofBytes src, CStr.ofBytes dst, payload⟩ := by
  cases hc : readCookie cookieFrame with
  | none =>
    simp only [sCbForwardRsock, hc] at hx
    exact absurd hx List.not_mem_nil
  | some cookie =>
    cases hb : hashtableHasLocalBroker env self sockid cookie with
    | none =>
      simp only [sCbForwardRsock, hc, hb] at hx
      exact absurd hx List.not_mem_nil
    | some o =>
      cases o with
      | none =>
        simp only [sCbForwardRsock, hc, hb] at hx
        exact absurd hx List.not_mem_nil
      | some np =>
        rcases msg with _ | ⟨src, _ | ⟨dst, payload⟩⟩
        · simp only [sCbForwardRsock, hc, hb] at hx
          exact absurd hx List.not_mem_nil
        · simp only [sCbForwardRsock, hc, hb] at hx
          exact absurd hx List.not_mem_nil
        · rw [sCbForwardRsock_eq hc hb] at hx
          refine ⟨src, dst, payload, rfl, by rw [fromBroker_eq hc hb, Option.isSome_some], ?_⟩
          exact carry_passes hinj ((sameTables_touchBroker self np).tablesOk hok)
            (n := ⟨CStr.ofBytes src, CStr.ofBytes dst, payload⟩)
            (fun _ => destInvalidRsock_cmd) hn hx

/-- The notifications of a `FORWARD` from above. -/
theorem forward_dsock_passes (hinj : Function.Injective env.xxh32) {self : DdBroker H}
    (hok : TablesOk env self) {msg : List Frame} {x : Send} (hn : x.notifies)
    (hx : x ∈ (sCbForwardDsock env self msg).sends) :
    ∃ src dst payload, msg = src :: dst :: payload ∧
      x.Passes self ⟨CStr.ofBytes src, CStr.ofBytes dst, payload⟩ := by
  rcases msg with _ | ⟨src, _ | ⟨dst, payload⟩⟩
  · exact absurd hx List.not_mem_nil
  · exact absurd hx List.not_mem_nil
  · rw [sCbForwardDsock_eq] at hx
    exact ⟨src, dst, payload, rfl, carry_passes hinj hok
      (n := ⟨CStr.ofBytes src, CStr.ofBytes dst, payload⟩)
      (fun _ => destInvalidDsock_cmd) hn hx⟩

/-- **Every `DATA` and `FORWARD` of a step passes on the notification the event brought.** -/
theorem step_passes (hinj : Function.Injective env.xxh32) {self : DdBroker H}
    (hok : TablesOk env self) {e : Event} {x : Send} (hn : x.notifies)
    (hx : x ∈ (step env self e).sends) :
    ∃ n, notificationOf env self e = some n ∧ x.Passes self n := by
  -- the commands that may be answered by a notification are three
  have hsays : Cmd.data ∈ e.answers ∨ Cmd.forward ∈ e.answers :=
    hn.imp (fun h => says_step self e x hx _ h) fun h => says_step self e x hx _ h
  cases e with
  | router msg =>
    rcases sOnRouterMsg_eq env self msg with ⟨s, cmd, rest, hm, heq⟩ | ⟨hm, heq | ⟨sends, heq, hs⟩⟩
    · rw [step, heq] at hx
      cases cmd with
      | send =>
        cases rest with
        | nil => exact absurd hx List.not_mem_nil
        | cons cookie msg' =>
          obtain ⟨ln, dest, payload, rfl, hacc, hp⟩ := send_passes hinj hok hn hx
          exact ⟨_, by simp [notificationOf, sendOf, hm, hacc], hp⟩
      | forward =>
        cases rest with
        | nil => exact absurd hx List.not_mem_nil
        | cons cookie msg' =>
          obtain ⟨src, dst, payload, rfl, hfrom, hp⟩ := forward_rsock_passes hinj hok hn hx
          exact ⟨_, by simp [notificationOf, sendOf, forwardOf, hm, hfrom], hp⟩
      | ping | addlcl | adddcl | addbr | unreg | unregdcli | unregbr | data | error | regok | pong
      | chall | challok | pub | sub | unsub | subok =>
        simp [Event.answers, hm, Cmd.answers] at hsays
    · rw [step, heq] at hx
      exact absurd hx List.not_mem_nil
    · rw [step, heq] at hx
      exact absurd hn (not_notifies_error (hs x hx))
  | dealer msg =>
    rcases sOnDealerMsg_eq env self msg with ⟨cmd, rest, hm, heq⟩ | ⟨hm, heq | heq⟩
    · rw [step, heq] at hx
      cases cmd with
      | forward =>
        have hok' : TablesOk env { self with timeout := 0 } := { hok with }
        obtain ⟨src, dst, payload, rfl, hp⟩ := @forward_dsock_passes _ _ _ hinj _ hok' rest _ hn hx
        exact ⟨_, by simp [notificationOf, sendOf, forwardOf, hm], hp⟩
      | send | ping | addlcl | adddcl | addbr | unreg | unregdcli | unregbr | data | error | regok
      | pong | chall | challok | pub | sub | unsub | subok =>
        simp [Event.answers, hm, Cmd.dealerAnswers] at hsays
    · rw [step, heq] at hx
      exact absurd hx List.not_mem_nil
    · rw [step, heq] at hx
      exact absurd hx List.not_mem_nil
  | subN | subS | pubN | pubS | register | heartbeat | checkCliTimeout | checkBrTimeout =>
    simp [Event.answers] at hsays

/-! ## The two sides of a notification -/

omit [DecidableEq H] in
/-- The full name of a client is that of its tenant. -/
theorem TablesOk.owned {self : DdBroker H} (hok : TablesOk env self) {c : LocalClient}
    (hc : c ∈ self.lclCliHt.nodes) : Owned c.tenant c.prefixName := by
  rw [hok.named c hc]
  exact ⟨c.name.bytes, rfl⟩

/-- A tenant without a dot is public just when a string of it starts with `public.`. -/
theorem startsWith_publicDot_iff {tenant s : CStr} (h : Owned tenant s)
    (hdot : dot ∉ tenant.bytes) :
    s.startsWith publicDot ↔ tenant = publicName := by
  constructor
  · intro hs
    have hpub : Owned publicName s := CStr.startsWith_iff.mp hs
    rw [← h.before hdot, ← hpub.before (by decide)]
  · rintro rfl
    exact CStr.startsWith_iff.mpr h

omit [DecidableEq H] in
/-- The tenant of a local client has a plain name. -/
theorem TablesOk.plain {self : DdBroker H} (hok : TablesOk env self) (hplain : self.keys.Plain)
    {ln : LocalClient} (hln : ln ∈ self.lclCliHt.nodes) :
    dot ∉ ln.tenant.bytes ∧ ln.tenant.length < 255 := by
  obtain ⟨hash, ten, hten, hname, -⟩ := hok.tenant ln hln
  exact hname ▸ ⟨hplain.dot_free hash ten hten, hplain.fits hash ten hten⟩

omit [DecidableEq H] in
/-- The tenant of a client fits the buffers, as its full name does. -/
theorem TablesOk.tenant_fits {self : DdBroker H} (hok : TablesOk env self) {ln : LocalClient}
    (hln : ln ∈ self.lclCliHt.nodes) : ln.tenant.length < 255 := by
  have hlen := hok.fits ln hln
  rw [hok.named ln hln] at hlen
  simp [CStr.length, dotStr] at hlen
  simp [CStr.length]
  omega

omit [DecidableEq H] in
/-- What `s_cb_send` reads off the tenant of a client stands in its full name. -/
theorem TablesOk.srcpublic {self : DdBroker H} (hok : TablesOk env self) {ln : LocalClient}
    (hln : ln ∈ self.lclCliHt.nodes) (hdot : dot ∉ ln.tenant.bytes) :
    decide (ln.tenant = publicName) = ln.prefixName.startsWith publicDot := by
  rw [Bool.eq_iff_iff, decide_eq_true_eq, startsWith_publicDot_iff (hok.owned hln) hdot]

/-- **What `s_cb_send` makes of the destination**: a string of the tenant `public`, or of the
sender's tenant, or — for a public sender only — one that names its tenant itself. -/
theorem resolve_spec (keys : DdBrokerKeys) {tenant : CStr} (hfits : tenant.length < 255)
    (dest : CStr) :
    Owned publicName (resolve keys tenant dest).1 ∨ Owned tenant (resolve keys tenant dest).1 ∨
      tenant = publicName := by
  unfold resolve
  simp only
  split
  · next h => exact Or.inl (CStr.startsWith_iff.mp h)
  · split
    · next h => exact Or.inr (Or.inr (of_decide_eq_true h))
    · exact Or.inr (Or.inl (owned_joined hfits dest))

/-- **The public bits agree** — the handlers of `FORWARD` read off the strings what `s_cb_send`
knows of the tenant and the destination. -/
theorem resolve_public (keys : DdBrokerKeys) {tenant : CStr} (hfits : tenant.length < 255)
    (hdot : dot ∉ tenant.bytes) (dest : CStr) :
    (resolve keys tenant dest).1.startsWith publicDot = (resolve keys tenant dest).2 := by
  unfold resolve
  simp only
  split
  · next h => exact h
  · next h =>
    split
    · next hpub =>
      split
      · simpa using h
      · exact (startsWith_publicDot_iff (owned_joined hfits dest) hdot).mpr (of_decide_eq_true hpub)
    · next hpub =>
      rw [Bool.eq_false_iff]
      exact fun hs => hpub (decide_eq_true
        ((startsWith_publicDot_iff (owned_joined hfits dest) hdot).mp hs))

/-- The resolved destination has a dot. -/
theorem exists_after_resolve (keys : DdBrokerKeys) {tenant : CStr} (hfits : tenant.length < 255)
    (dest : CStr) : ∃ name, (resolve keys tenant dest).1.after dot = some name := by
  suffices hdot : dot ∈ (resolve keys tenant dest).1.bytes from ⟨_, if_pos hdot⟩
  have howned : ∀ {t s : CStr}, Owned t s → dot ∈ s.bytes := fun h =>
    h.subset (List.mem_append_right _ (List.mem_singleton_self dot))
  unfold resolve
  simp only
  split
  · next h =>
    have hpub : Owned publicName dest := CStr.startsWith_iff.mp h
    exact howned hpub
  · split
    · split
      · next h =>
        rw [namesTenant, Bool.and_eq_true, decide_eq_true_eq] at h
        exact h.1
      · exact howned (owned_joined hfits dest)
    · exact howned (owned_joined hfits dest)

end DoubleDecker
