import DoubleDecker.Broker.Addressing
import DoubleDecker.Broker.North

/-!
# Broker/Delivery — what becomes of a notification

The three handlers of notifications ask for the state of the broker when nobody has the destination,
and `forward_up` asks again: it sends only when the broker is registered, where its callers only
know that the broker is no root.  At a root the answer to a higher broker is not well formed.
-/

namespace DoubleDecker

variable {H : Type} [DecidableEq H] {env : Env H} {b b' : DdBroker H} {e : Event}
  {sends : List Send} {n : Notification}

/-! ## The answers -/

/-- A message back over the socket an event came from. -/
def Event.reply (msg : List Frame) : Event → Option Send
  | .router (source :: _) => some (.rsock source msg)
  | .dealer _ => some (.dsock msg)
  | _ => none

/-- **An answer to a notification** — its `DATA` to a local client, its `FORWARD` to a lower broker
or to the higher one, or an `ERROR_NODST` back. -/
def Send.Answers (b : DdBroker H) (e : Event) (n : Notification) (x : Send) : Prop :=
  (∃ c ∈ b.lclCliHt.nodes, c.prefixName = n.dst ∧
    ∃ s, x = .rsock c.sockid (ddMsg .data (s :: n.payload))) ∨
  (∃ br ∈ b.lclBrHt.nodes,
    x = .rsock br.sockid (ddMsg .forward (n.src.bytes :: n.dst.bytes :: n.payload))) ∨
  (x = .dsock (ddMsg .forward (b.keys.cookie.1 :: n.src.bytes :: n.dst.bytes :: n.payload))) ∨
  ∃ dst src, e.reply (ddMsg .error [le32 ddErrorNodst, dst, src]) = some x

/-- The notification is answered by one message. -/
def Answered (env : Env H) (b : DdBroker H) (e : Event) (n : Notification) : Prop :=
  ∃ b' x, step env b e = .done b' [x] ∧ x.Answers b e n

/-- **When a notification has somewhere to go**: a client is found and the source string has the dot
it is cut at, or needs none; a lower broker is found; or the broker can pass the notification on or,
as a root, tell a client or a lower broker that it cannot. -/
def Routable (b : DdBroker H) (e : Event) (n : Notification) : Prop :=
  (b.HasClient n.dst ∧
    (dot ∈ n.src.bytes ∨ n.src.startsWith publicDot ≠ n.dst.startsWith publicDot)) ∨
  (¬ b.HasClient n.dst ∧ ∃ s, b.Maps n.dst s) ∨
  (¬ b.Has n.dst ∧ (b.state = .registered ∨ b.state = .root ∧ ∃ msg, e = .router msg))

/-! ## One rule -/

/-- The source of a notification can be shown. -/
theorem exists_shown_iff {srcpublic dstpublic : Bool} {src : CStr} :
    (∃ s, shownSource srcpublic dstpublic src = some s) ↔
      dot ∈ src.bytes ∨ srcpublic ≠ dstpublic := by
  unfold shownSource
  by_cases hne : srcpublic = dstpublic
  · subst hne
    simp [keepsTenant, CStr.after]
  · have hkeeps : keepsTenant srcpublic dstpublic = true := by simpa [keepsTenant] using hne
    simp [hkeeps, hne]

/-- What the three handlers of notifications have in common: the tables they look at, which side
they take for public, and what they do when nobody has the destination. -/
structure RoutedAs (env : Env H) (b : DdBroker H) (e : Event) (n : Notification) (b₁ : DdBroker H)
    (srcpublic dstpublic : Bool) (nodst : Outcome H) : Prop where
  tables : SameTables b b₁
  state : b₁.state = b.state
  step : step env b e = carry env b₁ srcpublic dstpublic n.src n.dst n.payload nodst
  shown : (∃ s, shownSource srcpublic dstpublic n.src = some s) ↔
    dot ∈ n.src.bytes ∨ n.src.startsWith publicDot ≠ n.dst.startsWith publicDot
  nodst : (∃ msg, e = .router msg) ∧ (∃ x dst src, nodst = .done b₁ [x] ∧
      e.reply (ddMsg .error [le32 ddErrorNodst, dst, src]) = some x) ∨
    (∃ msg, e = .dealer msg) ∧ nodst = .fault []

omit [DecidableEq H] in
/-- A `SEND` at a root is answered when nobody has the destination. -/
theorem sendNodst_done {self : DdBroker H} {sockid : Frame} {tail : List Frame}
    {srcpublic dstpublic : Bool} {src dst : CStr} (hsrc : dot ∈ src.bytes)
    (hdst : dot ∈ dst.bytes) :
    ∃ x d s, sendNodst self sockid srcpublic dstpublic src dst = .done self [x] ∧
      Event.reply (ddMsg .error [le32 ddErrorNodst, d, s]) (.router (sockid :: tail)) = some x := by
  unfold sendNodst
  split
  · exact ⟨_, _, _, rfl, rfl⟩
  · rw [CStr.after, CStr.after, if_pos hsrc, if_pos hdst]
    exact ⟨_, _, _, rfl, rfl⟩

theorem routes_send (hinj : Function.Injective env.xxh32) (hok : TablesOk env b) {ln : LocalClient}
    {dest : CStr} {payload : List Frame} (h : sendOf env b e = some (ln, dest, payload)) :
    ∃ b₁ srcpublic dstpublic nodst,
      RoutedAs env b e (resolved b.keys ln dest payload) b₁ srcpublic dstpublic nodst := by
  obtain ⟨sockid, cookie, tail, rfl, hln, hstep⟩ := step_sendOf h
  have hmem := (hok.of_hasLocal hinj hln).1
  have hsrc : dot ∈ ln.prefixName.bytes :=
    (hok.owned hmem).subset (List.mem_append_right _ (List.mem_singleton_self dot))
  obtain ⟨name, hname⟩ := exists_after_resolve b.keys (hok.tenant_fits hmem) dest
  have hdst : dot ∈ (resolve b.keys ln.tenant dest).1.bytes := by
    by_contra hno
    rw [CStr.after_eq_none hno] at hname
    cases hname
  exact ⟨_, _, _, _, sameTables_touch b ln, rfl, hstep,
    iff_of_true (exists_shown_iff.mpr (Or.inl hsrc)) (Or.inl hsrc),
    Or.inl ⟨⟨_, rfl⟩, sendNodst_done hsrc hdst⟩⟩

theorem routes_forward (h : forwardOf env b e = some n) :
    ∃ b₁ srcpublic dstpublic nodst, RoutedAs env b e n b₁ srcpublic dstpublic nodst := by
  unfold forwardOf at h
  split at h
  · split at h
    · next msg source cookie src dst payload hm =>
      split at h
      · next hfrom =>
        cases h
        obtain ⟨k, np, hk, hnp⟩ := fromBroker_eq_true.mp hfrom
        obtain ⟨tail, rfl⟩ := exists_of_routerCmd hm
        exact ⟨_, _, _, _, sameTables_touchBroker b np, rfl,
          (step_router hm).trans (sCbForwardRsock_eq hk hnp _ _ _), exists_shown_iff,
          Or.inl ⟨⟨_, rfl⟩, _, _, _, rfl, rfl⟩⟩
      · cases h
    · cases h
  · split at h
    · next msg src dst payload hm =>
      cases h
      exact ⟨{ b with timeout := 0 }, _, _, _, ⟨rfl, rfl, rfl, rfl, rfl, rfl, rfl, rfl, rfl⟩, rfl,
        (step_dealer hm).trans (sCbForwardDsock_eq _ _ _ _), exists_shown_iff,
        Or.inr ⟨⟨_, rfl⟩, rfl⟩⟩
    · cases h
  · cases h

/-- **The three handlers are one rule.** -/
theorem routes_notification (hinj : Function.Injective env.xxh32) (hok : TablesOk env b)
    (hn : notificationOf env b e = some n) :
    ∃ b₁ srcpublic dstpublic nodst, RoutedAs env b e n b₁ srcpublic dstpublic nodst := by
  obtain hsend | ⟨-, hforward⟩ := Option.or_eq_some_iff.mp hn
  · obtain ⟨⟨ln, dest, payload⟩, hs, rfl⟩ := Option.map_eq_some_iff.mp hsend
    exact routes_send hinj hok hs
  · exact routes_forward hforward

theorem RoutedAs.client {b₁ : DdBroker H} {srcpublic dstpublic : Bool} {nodst : Outcome H}
    (hr : RoutedAs env b e n b₁ srcpublic dstpublic nodst) {c : LocalClient} (hok : TablesOk env b)
    (hinj : Function.Injective env.xxh32)
    (hrev : hashtableHasRevLocalNode env b₁ n.dst = some c) :
    Answered env b e n ↔
      dot ∈ n.src.bytes ∨ n.src.startsWith publicDot ≠ n.dst.startsWith publicDot := by
  obtain ⟨hmem, hname⟩ := (hr.tables.tablesOk hok).of_hasRev hinj hrev
  rw [hr.tables.lclCliHt] at hmem
  rw [Answered, hr.step, carry, hrev, ← hr.shown]
  simp only [deliver_eq]
  cases hs : shownSource srcpublic dstpublic n.src with
  | none => simp
  | some s => exact iff_of_true ⟨_, _, rfl, Or.inl ⟨c, hmem, hname, s.bytes, rfl⟩⟩ ⟨s, rfl⟩

/-- A notification for a distant client goes to a lower broker. -/
theorem RoutedAs.distant {b₁ : DdBroker H} {srcpublic dstpublic : Bool} {nodst : Outcome H}
    (hr : RoutedAs env b e n b₁ srcpublic dstpublic nodst) {dn : DistClient}
    (hreg : RegistryOk b) (hrev : hashtableHasRevLocalNode env b₁ n.dst = none)
    (hdist : hashtableHasDistNode env b₁ n.dst = some dn) (hmaps : b.Maps n.dst dn.broker) :
    Answered env b e n := by
  obtain ⟨br, hbr, hs⟩ := hreg.hung n.dst dn.broker hmaps
  rw [Answered, hr.step, carry, hrev]
  simp only [hdist]
  exact ⟨_, _, rfl, Or.inr (Or.inl ⟨br, hbr, by rw [hs]⟩)⟩

/-- A notification for a name nobody has is passed on, or answered by a root. -/
theorem RoutedAs.unknown {b₁ : DdBroker H} {srcpublic dstpublic : Bool} {nodst : Outcome H}
    (hr : RoutedAs env b e n b₁ srcpublic dstpublic nodst)
    (hrev : hashtableHasRevLocalNode env b₁ n.dst = none)
    (hdist : hashtableHasDistNode env b₁ n.dst = none) :
    Answered env b e n ↔ b.state = .registered ∨ b.state = .root ∧ ∃ msg, e = .router msg := by
  rw [Answered, hr.step, carry, hrev]
  simp only [hdist, hr.state]
  cases hstate : b.state with
  | unreg => simp [forwardUp, hr.state, hstate]
  | root =>
    simp only [if_true]
    obtain ⟨hrouter, x, dst, src, hnodst, hreply⟩ | ⟨⟨msg, rfl⟩, hnodst⟩ := hr.nodst
    · rw [hnodst]
      exact iff_of_true ⟨_, x, rfl, Or.inr (Or.inr (Or.inr ⟨dst, src, hreply⟩))⟩
        (Or.inr ⟨trivial, hrouter⟩)
    · simp [hnodst]
  | registered =>
    refine iff_of_true ⟨b₁, _, ?_, Or.inr (Or.inr (Or.inl rfl))⟩ (Or.inl rfl)
    simp [forwardUp, hr.state, hstate, hr.tables.keys]

/-- **No notification is swallowed just when it has somewhere to go.** -/
theorem answered_iff (hinj : Function.Injective env.xxh32) {cfg : Config} (h : Reachable env cfg b)
    (hn : notificationOf env b e = some n) : Answered env b e n ↔ Routable b e n := by
  have hok := h.tablesOk hinj
  obtain ⟨b₁, srcpublic, dstpublic, nodst, hr⟩ := routes_notification hinj hok hn
  have hok₁ := hr.tables.tablesOk hok
  by_cases hclient : b.HasClient n.dst
  · obtain ⟨c, hrev⟩ : ∃ c, hashtableHasRevLocalNode env b₁ n.dst = some c := by
      rw [← Option.ne_none_iff_exists', ne_eq, hok₁.hasRev_eq_none hinj,
        HasClient.congr hr.tables.lclCliHt, not_not]
      exact hclient
    rw [hr.client hok hinj hrev]
    simp [Routable, hclient, DdBroker.Has]
  · have hrev : hashtableHasRevLocalNode env b₁ n.dst = none := by
      rw [hok₁.hasRev_eq_none hinj, HasClient.congr hr.tables.lclCliHt]
      exact hclient
    cases hdist : hashtableHasDistNode env b₁ n.dst with
    | some dn =>
      have hmaps : b.Maps n.dst dn.broker := by
        rw [← Maps.congr hr.tables.distCliHt, hok₁.maps_iff hinj]
        exact ⟨dn, hdist, rfl⟩
      exact iff_of_true (hr.distant (h.registryOk hinj) hrev hdist hmaps)
        (Or.inr (Or.inl ⟨hclient, dn.broker, hmaps⟩))
    | none =>
      have hmaps : ¬ ∃ s, b.Maps n.dst s := by
        simp only [← Maps.congr hr.tables.distCliHt, hok₁.exists_maps_iff hinj, hdist]
        simp
      rw [hr.unknown hrev hdist]
      simp [Routable, hclient, DdBroker.Has, not_exists.mp hmaps]

/-- The notification of a `SEND` to a name nobody has. -/
def lostNote : Notification := ⟨text "a.x", text "a.y", []⟩

theorem headRun_lostNote : (runEvents plainEnv (ddBrokerNew _ demoConfig) headRun).map (fun b =>
    notificationOf plainEnv b (sendToEvent [1, 2, 3, 4, 5] (cookieOf 65) (text "y"))) =
      some (some lostNote) := by
  decide

/-- A client of a root sends to a name nobody has. -/
theorem answered_headRun : ∃ b : DdBroker (List UInt8), Reachable plainEnv demoConfig b ∧
    (Answered plainEnv b (sendToEvent [1, 2, 3, 4, 5] (cookieOf 65) (text "y")) lostNote ↔
      Routable b (sendToEvent [1, 2, 3, 4, 5] (cookieOf 65) (text "y")) lostNote) := by
  obtain ⟨b, hb, hnote⟩ := Option.map_eq_some_iff.mp headRun_lostNote
  have hreach : Reachable plainEnv demoConfig b := ⟨_, .of_runEvents hb⟩
  exact ⟨b, hreach, answered_iff (fun _ _ h => h) hreach hnote⟩

theorem headRun_swallows : (runEvents plainEnv (ddBrokerNew _ lowerConfig) headRun).map (fun b =>
    decide (notificationOf plainEnv b (sendToEvent [1, 2, 3, 4, 5] (cookieOf 65) (text "y")) =
      some lostNote ∧ (step plainEnv b
        (sendToEvent [1, 2, 3, 4, 5] (cookieOf 65) (text "y"))).sends = [])) = some true := by
  decide

/-- **Not every notification is answered**: a broker that has not registered yet drops what it would
pass on. -/
theorem not_answered : ¬ ∀ (H : Type) [DecidableEq H] (env : Env H),
    Function.Injective env.xxh32 → ∀ (cfg : Config) (b : DdBroker H), Reachable env cfg b →
    ∀ (e : Event) (n : Notification), notificationOf env b e = some n → Answered env b e n := by
  intro hall
  obtain ⟨b, hb, hfacts⟩ := Option.map_eq_some_iff.mp headRun_swallows
  obtain ⟨hnote, hsends⟩ := of_decide_eq_true hfacts
  obtain ⟨b', x, hstep, -⟩ := hall _ plainEnv Function.injective_id lowerConfig b
    ⟨_, .of_runEvents hb⟩ _ _ hnote
  rw [hstep] at hsends
  cases hsends

end DoubleDecker
