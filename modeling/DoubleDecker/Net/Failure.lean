import DoubleDecker.Net.Tree

/-!
# Net/Failure — a notification that nobody takes

A destination nobody has is reported by the sender's own broker when it is the root, else by the
root of the tree, whose `ERROR_NODST` goes back down to the sender.  On the way back the destination
loses its tenant in every case; the root that answers its own client keeps it when just one side is
public. Otherwise the sender is told once, and the same (`failure_reported`).
-/

namespace DoubleDecker

open BrokerTree

variable {ι H : Type} [DecidableEq ι] [DecidableEq H]

/-! ## The conditions -/

namespace BrokerTree

variable (t : BrokerTree ι) (env : Env H) (o : ι) (ln : LocalClient)

/-- **A `SEND` whose failure is reported alike** — its broker finds the destination, or it is the
root, or it is registered and both sides are public or none is. -/
def sendReports (b : DdBroker H) (dest : CStr) : Bool :=
  t.leads env o b (resolve b.keys ln.tenant dest).1 ||
    missing env b (resolve b.keys ln.tenant dest).1 &&
      (b.state = .root || b.state = .registered &&
        !keepsTenant (decide (ln.tenant = publicName)) (resolve b.keys ln.tenant dest).2)

/-- **A step on the way of a notification that keeps it** — a `FORWARD` from below comes over a
known link to a broker that is registered or the root, one from above is for a client the broker
finds, and an `ERROR_NODST` finds the sender, at its own broker or behind a lower one that is above
it. -/
def reports (i : ι) (b : DdBroker H) : Event → Bool
  | .router msg =>
    match routerCmd msg with
    | some (source, .forward, cookie :: _ :: dst :: _) =>
      fromBroker env b source cookie && (t.leads env i b (CStr.ofBytes dst) ||
        missing env b (CStr.ofBytes dst) && b.state ≠ .unreg)
    | _ => false
  | .dealer msg =>
    match dealerCmd msg with
    | some (.forward, _ :: dst :: _) => t.leads env i b (CStr.ofBytes dst)
    | some (.error, _ :: _ :: src :: _) =>
      match hashtableHasRevLocalNode env b (CStr.ofBytes src) with
      | some c => i = o && c.sockid = ln.sockid
      | none =>
        match hashtableHasDistNode env b (CStr.ofBytes src) with
        | some dn => (t.child i dn.broker).any fun j => j ∈ t.above o
        | none => false
    | _ => false
  | _ => false

end BrokerTree

/-- What a broker tells its client when it is the root. -/
def rootTells (env : Env H) (b : DdBroker H) (ln : LocalClient) (e : Event) (dst : CStr) : Prop :=
  ∃ b' src, step env { b with state := .root } e = .done b' [.rsock ln.sockid (nodstMsg dst src)]

section

variable {env : Env H} {t : BrokerTree ι} {o i : ι} {ln : LocalClient} {b b' : DdBroker H}
  {sends : List Send} {src dst : CStr} {payload : List Frame}

/-! ## One step -/

/-- **Where a notification is** — a `FORWARD` above its sender, or on its way down, or delivered; or
an `ERROR_NODST` above its sender, or the one its sender got.  `tells` is what the sender's own
broker would have said. -/
inductive Fate (t : BrokerTree ι) (o : ι) (ln : LocalClient) (n : Notification)
    (tells : CStr → Prop) : Spot ι → List Frame → Prop
  | rising {i : ι} (cookie : Frame) : i ∈ t.above o →
      (∀ name, n.dst.after dot = some name → tells name) → Fate t o ln n tells (.up i)
        (ddMsg .forward (cookie :: n.src.bytes :: n.dst.bytes :: n.payload))
  | falling (i : ι) : Fate t o ln n tells (.down i)
      (ddMsg .forward (n.src.bytes :: n.dst.bytes :: n.payload))
  | delivered (i : ι) (d s : Frame) : Fate t o ln n tells (.out i d) (ddMsg .data (s :: n.payload))
  | returning {i : ι} : i ∈ t.above o → (∀ name, n.dst.after dot = some name → tells name) →
      Fate t o ln n tells (.down i) (nodstMsg n.dst n.src)
  | told {name src : CStr} : tells name → Fate t o ln n tells (.out o ln.sockid) (nodstMsg name src)

variable {n : Notification} {tells : CStr → Prop} {msgs : List (Spot ι × List Frame)}

omit [DecidableEq ι] in
/-- A destination that is found. -/
theorem Fate.of_leads {srcpublic dstpublic : Bool} {nodst : Outcome H}
    (hleads : t.leads env i b n.dst)
    (h : carry env b srcpublic dstpublic n.src n.dst n.payload nodst = .done b' sends) :
    ∃ q m, sends.filterMap (t.spot i) = [(q, m)] ∧ Fate t o ln n tells q m := by
  obtain ⟨d, s, -, -, heq⟩ | ⟨j, -, -, heq⟩ := carry_leads hleads h
  · exact ⟨_, _, heq, .delivered i d s.bytes⟩
  · exact ⟨_, _, heq, .falling j⟩

/-- **A `FORWARD` from below** is passed on, or the root sends the error back over the link. -/
theorem Fate.rising_step {p : ι} {cookie : Frame} (hi : i ∈ t.above o) (hp : t.parent i = some p)
    (htells : ∀ name, n.dst.after dot = some name → tells name)
    (hcond : t.reports env o ln p b
      (.router (t.sockid i :: ddMsg .forward (cookie :: n.src.bytes :: n.dst.bytes :: n.payload))))
    (h : step env b
      (.router (t.sockid i :: ddMsg .forward (cookie :: n.src.bytes :: n.dst.bytes :: n.payload))) =
        .done b' sends) :
    ∃ q m, sends.filterMap (t.spot p) = [(q, m)] ∧ Fate t o ln n tells q m := by
  simp only [reports, routerCmd_ddMsg, CStr.ofBytes_bytes, Bool.and_eq_true,
    Bool.or_eq_true] at hcond
  obtain ⟨hfrom, hcond⟩ := hcond
  obtain ⟨cookie', np, hc, hnp⟩ := fromBroker_eq_true.mp hfrom
  rw [step_router (routerCmd_ddMsg _ _ _), onRouterCmd, sCbForwardRsock_eq hc hnp,
    CStr.ofBytes_bytes, CStr.ofBytes_bytes] at h
  obtain hleads | ⟨hmissing, hstate⟩ := hcond
  · exact Fate.of_leads (b := b.touchBroker np) hleads h
  · rw [carry_missing (b := b.touchBroker np) hmissing] at h
    split at h
    · cases h
      refine ⟨.down i, _, ?_, .returning hi htells⟩
      simp [destInvalidRsock, spot, t.child_sockid hp, nodstMsg]
    · next hroot =>
      have hreg : (b.touchBroker np).state = .registered := by
        change ¬ b.state = .root at hroot
        change b.state = .registered
        cases hs : b.state with
        | registered => rfl
        | root => exact absurd hs hroot
        | unreg => simp [hs] at hstate
      cases h
      exact ⟨_, _, spot_forwardUp hreg, .rising _ (t.parent_mem_above hi hp) htells⟩

/-- **An `ERROR_NODST`** goes down to the sender. -/
theorem Fate.returning_step (hclient : t.child o ln.sockid = none)
    (htells : ∀ name, n.dst.after dot = some name → tells name)
    (hcond : t.reports env o ln i b (.dealer (nodstMsg n.dst n.src)))
    (h : step env b (.dealer (nodstMsg n.dst n.src)) = .done b' sends) :
    ∃ q m, sends.filterMap (t.spot i) = [(q, m)] ∧ Fate t o ln n tells q m := by
  simp only [reports, nodstMsg, dealerCmd_ddMsg, CStr.ofBytes_bytes] at hcond
  rw [step_nodst] at h
  cases hrev : hashtableHasRevLocalNode env b n.src with
  | some c =>
    simp only [hrev, Bool.and_eq_true, decide_eq_true_eq] at hcond h
    obtain ⟨rfl, hsock⟩ := hcond
    split at h
    · cases h
    · next name hname =>
      cases h
      refine ⟨.out i ln.sockid, nodstMsg name n.src, ?_, .told (htells name hname)⟩
      simp [spot, hsock, hclient]
  | none =>
    simp only [hrev] at hcond h
    cases hdist : hashtableHasDistNode env b n.src with
    | none => simp [hdist] at hcond
    | some dn =>
      simp only [hdist] at hcond h
      obtain ⟨j, hj, habove⟩ := (Option.any_eq_true _ _).mp hcond
      cases h
      refine ⟨.down j, _, ?_, .returning (of_decide_eq_true habove) htells⟩
      simp [spot, hj]

/-- **Every handling of the notification keeps its fate.** -/
theorem Fate.handled (hclient : t.child o ln.sockid = none) {q : Spot ι} {m : List Frame}
    {e : Event}
    (hfate : Fate t o ln n tells q m) (harr : t.arrive q m = some (i, e))
    (hcond : t.reports env o ln i b e) (h : (t.system env).step i b e = some (b', msgs)) :
    ∃ q' m', msgs = [(q', m')] ∧ Fate t o ln n tells q' m' := by
  obtain ⟨sends, hs, rfl⟩ := system_step_eq_some h
  cases hfate with
  | @rising i' cookie hi htells =>
    obtain ⟨p, hp, heq⟩ := Option.map_eq_some_iff.mp harr
    cases heq
    exact Fate.rising_step hi hp htells hcond hs
  | falling j =>
    cases harr
    simp only [reports, dealerCmd_ddMsg, CStr.ofBytes_bytes] at hcond
    rw [step_dealer (dealerCmd_ddMsg _ _), onDealerCmd, sCbForwardDsock_eq, CStr.ofBytes_bytes,
      CStr.ofBytes_bytes] at hs
    exact Fate.of_leads (b := { b with timeout := 0 }) hcond hs
  | delivered j d s => cases harr
  | returning hi htells =>
    cases harr
    exact Fate.returning_step hclient htells hcond hs
  | told => cases harr

/-! ## The `SEND` -/

variable {cookie dest : Frame}

omit [DecidableEq ι] in
/-- **What the root tells its own client** about a destination that is missing. -/
theorem step_send_root (hacc : acceptedFor env b ln.sockid cookie = some ln)
    (hmissing : missing env b (resolve b.keys ln.tenant (CStr.ofBytes dest)).1) :
    step env { b with state := .root } (sendEvent ln cookie dest payload) =
      sendNodst ({ b with state := .root }.touch ln) ln.sockid (decide (ln.tenant = publicName))
        (resolve b.keys ln.tenant (CStr.ofBytes dest)).2 ln.prefixName
        (resolve b.keys ln.tenant (CStr.ofBytes dest)).1 := by
  have hacc' : acceptedFor env { b with state := .root } ln.sockid cookie = some ln := hacc
  rw [step_send hacc']
  exact (carry_missing (b := { b with state := .root }.touch ln) hmissing).trans (if_pos rfl)

omit [DecidableEq ι] in
/-- **What the sender would be told**, when both sides are public or none is. -/
theorem rootTells_of_missing (hinj : Function.Injective env.xxh32) (hok : TablesOk env b)
    (hacc : acceptedFor env b ln.sockid cookie = some ln)
    (hmissing : missing env b (resolve b.keys ln.tenant (CStr.ofBytes dest)).1)
    (hkeeps : keepsTenant (decide (ln.tenant = publicName))
      (resolve b.keys ln.tenant (CStr.ofBytes dest)).2 = false) {name : CStr}
    (hname : (resolve b.keys ln.tenant (CStr.ofBytes dest)).1.after dot = some name) :
    rootTells env b ln (sendEvent ln cookie dest payload) name := by
  obtain ⟨src, hsrc⟩ := hok.exists_after (hok.of_hasLocal hinj (acceptedFor_eq_some.mp hacc)).1
  refine ⟨{ b with state := .root }.touch ln, src, (step_send_root hacc hmissing).trans ?_⟩
  simp [sendNodst, hkeeps, hsrc, hname, destInvalidRsock, nodstMsg]

omit [DecidableEq ι] in
/-- **The `SEND` starts the notification.** -/
theorem Fate.start (hinj : Function.Injective env.xxh32) (hok : TablesOk env b)
    (hacc : acceptedFor env b ln.sockid cookie = some ln) (hclient : t.child o ln.sockid = none)
    (hsafe : t.sendReports env o ln b (CStr.ofBytes dest))
    (h : step env b (sendEvent ln cookie dest payload) = .done b' sends) :
    ∃ q m, sends.filterMap (t.spot o) = [(q, m)] ∧
      Fate t o ln (resolved b.keys ln (CStr.ofBytes dest) payload)
        (rootTells env b ln (sendEvent ln cookie dest payload)) q m := by
  have hstep := h
  rw [step_send hacc] at h
  simp only [sendReports, Bool.or_eq_true, Bool.and_eq_true, decide_eq_true_eq] at hsafe
  obtain hleads | ⟨hmissing, hroot | ⟨hreg, hkeeps⟩⟩ := hsafe
  · exact Fate.of_leads (b := b.touch ln)
      (n := resolved b.keys ln (CStr.ofBytes dest) payload) hleads h
  · -- the sender's own broker is the root
    have hself : { b with state := .root } = b := by rw [← hroot]
    have hroots := @step_send_root _ _ env ln b payload cookie dest hacc hmissing
    rw [hself, hstep] at hroots
    obtain ⟨name, src, rfl⟩ : ∃ name src, sends = [.rsock ln.sockid (nodstMsg name src)] := by
      unfold sendNodst at hroots
      split at hroots
      · cases hroots
        exact ⟨_, _, rfl⟩
      · split at hroots
        · cases hroots
          exact ⟨_, _, rfl⟩
        · cases hroots
    refine ⟨.out o ln.sockid, nodstMsg name src, by simp [spot, hclient], .told ?_⟩
    exact ⟨b', src, by rw [hself, hstep]⟩
  · rw [carry_missing (b := b.touch ln) hmissing] at h
    have hstate : (b.touch ln).state = .registered := hreg
    rw [if_neg (by rw [hstate]; decide)] at h
    cases h
    exact ⟨_, _, spot_forwardUp hstate, .rising _ (t.self_mem_above o) fun name hname =>
      rootTells_of_missing hinj hok hacc hmissing (by simpa using hkeeps) hname⟩

end

/-! ## Every run -/

/-- **The sender is told once** — one message in the tree stems from the `SEND`, wherever it is;
when it is on no link and is no delivery, it is the `ERROR_NODST` for the sender, with the
destination that the sender's own broker would name if it were the root. -/
structure FailureReported (env : Env H) (b : DdBroker H) (o : ι) (ln : LocalClient) (e : Event)
    (n : Fifo ι (Spot ι) (DdBroker H) (List Frame)) : Prop where
  once : ∃ q m, n.Holds q m
  told : (∀ i, n.marks (.up i) = [] ∧ n.marks (.down i) = []) →
    (∀ i d, ∀ m ∈ n.marks (.out i d), (dealerCmd m).map Prod.fst ≠ some .data) →
    ∃ name src, rootTells env b ln e name ∧ n.Holds (.out o ln.sockid) (nodstMsg name src)

/-- **Failed notifications are reported to their sender** — in every run of a tree of brokers in
which the `SEND` and what follows of it meet the conditions. -/
theorem failure_reported {env : Env H} (hinj : Function.Injective env.xxh32) {cfg : ι → Config}
    {t : BrokerTree ι} {n n₀ n' : Fifo ι (Spot ι) (DdBroker H) (List Frame)}
    (hreach : ∀ i, Reachable env (cfg i) (n.state i)) (hclear : n.Clear) {o : ι} {ln : LocalClient}
    {cookie dest : Frame} {payload : List Frame}
    (hacc : acceptedFor env (n.state o) ln.sockid cookie = some ln)
    (hclient : t.child o ln.sockid = none)
    (hsafe : t.sendReports env o ln (n.state o) (CStr.ofBytes dest))
    (hsend : n.handle (t.system env) o (sendEvent ln cookie dest payload) true = some n₀)
    {es : List (FifoEvent ι (Spot ι) Event)}
    (hmeets : n₀.meets (t.system env)
      (fun n e => n.onMarked (t.system env) (t.reports env o ln) e) es)
    (hrun : n₀.run (t.system env) es = some n') :
    FailureReported env (n.state o) o ln (sendEvent ln cookie dest payload) n' := by
  obtain ⟨b', msgs, hstep, rfl⟩ := Fifo.handle_eq_some hsend
  obtain ⟨sends, hs, rfl⟩ := system_step_eq_some hstep
  obtain ⟨q, m, hmsgs, hfate⟩ := Fate.start hinj ((hreach o).tablesOk hinj) hacc hclient hsafe hs
  rw [hmsgs] at hstep
  obtain ⟨-, q', m', hholds, hfate'⟩ := Fifo.Holds.run (fun _ => True)
    (fun _ => Fate t o ln _ _) (fun _ _ _ _ _ _ => trivial)
    (fun n' _ _ _ _ _ _ _ _ _ hcond hp hq harr hst =>
      hp.handled hclient harr (Fifo.of_onMarked hq harr hcond) hst)
    trivial (hclear.holds hstep hsend) hfate hmeets hrun
  refine ⟨⟨q', m', hholds⟩, fun hlinks hdata => ?_⟩
  have hmark : n'.marks q' = [m'] := by rw [hholds, if_pos rfl]
  cases hfate' with
  | rising cookie hi htells =>
    rw [(hlinks _).1] at hmark
    cases hmark
  | falling i =>
    rw [(hlinks _).2] at hmark
    cases hmark
  | returning hi htells =>
    rw [(hlinks _).2] at hmark
    cases hmark
  | delivered i d s =>
    exact absurd (by rw [dealerCmd_ddMsg]; rfl) (hdata i d _ (hmark ▸ List.mem_singleton_self _))
  | told htells => exact ⟨_, _, htells, hholds⟩

/-! ### One side is public -/

/-- The notification goes up, the error comes down. -/
def upAndDown : List (FifoEvent Bool (Spot Bool) Event) := [.move (.up true), .move (.down true)]

/-- Nobody is called `a.zz`. -/
theorem asked_zz : (pairRun rootRun (CStr.ascii "zz") upAndDown).map (fun r =>
    (decide (acceptedFor plainEnv r.1 [1, 2, 3, 4, 5] (cookieOf 65).1 = some headClient) &&
      pairTree.sendReports plainEnv true headClient r.1 (text "zz") &&
      decide (r.2.2.1.meets (pairTree.system plainEnv)
        (fun n e => n.onMarked (pairTree.system plainEnv)
          (pairTree.reports plainEnv true headClient) e) upAndDown),
      r.2.2.2.marks (.out true [1, 2, 3, 4, 5]))) =
    some (true, [nodstMsg (text "zz") (text "a.x")]) := by
  decide

theorem failure_reported_zz :
    ∃ (lower root : DdBroker (List UInt8))
      (n' : Fifo Bool (Spot Bool) (DdBroker (List UInt8)) (List Frame)),
      (pairRun rootRun (CStr.ascii "zz") upAndDown).map (fun r => (r.1, r.2.1, r.2.2.2)) =
        some (lower, root, n') ∧
      n'.marks (.out true [1, 2, 3, 4, 5]) = [nodstMsg (text "zz") (text "a.x")] ∧
      FailureReported plainEnv lower true headClient (ask (CStr.ascii "zz")) n' := by
  obtain ⟨⟨lower, root, n, n'⟩, hasked, hfacts⟩ := Option.map_eq_some_iff.mp asked_zz
  obtain ⟨hreach, hsend, hrun⟩ := of_pairRun hasked
  simp only [Prod.mk.injEq, Bool.and_eq_true, decide_eq_true_eq] at hfacts
  obtain ⟨⟨⟨hacc, hsafe⟩, hmeets⟩, hmarks⟩ := hfacts
  exact ⟨lower, root, n', by rw [hasked]; rfl, hmarks, @failure_reported _ _ _ _ plainEnv
    Function.injective_id pairConfig pairTree (pairNet lower root) n n' hreach (fun _ => rfl) true
    headClient _ _ _ hacc rfl hsafe hsend _ hmeets hrun⟩

theorem asked_public : (pairRun rootRun (CStr.ascii "public.zz") upAndDown).map (fun r =>
    (decide (acceptedFor plainEnv r.1 [1, 2, 3, 4, 5] (cookieOf 65).1 = some headClient) &&
      missing plainEnv r.1 (resolve r.1.keys headClient.tenant (text "public.zz")).1 &&
      decide (r.1.state = .registered) &&
      decide (r.2.2.1.meets (pairTree.system plainEnv)
        (fun n e => n.onMarked (pairTree.system plainEnv)
          (pairTree.reports plainEnv true headClient) e) upAndDown),
      r.2.2.2.marks (.out true [1, 2, 3, 4, 5]),
      (step plainEnv { r.1 with state := .root } (ask (CStr.ascii "public.zz"))).sends)) =
    some (true, [nodstMsg (text "zz") (text "a.x")],
      [.rsock [1, 2, 3, 4, 5] (nodstMsg (text "public.zz") (text "a.x"))]) := by
  decide

/-- **The destination a sender is told is not always the same** — a failure found by a higher broker
loses its `public.`, one found by the sender's own broker keeps it. -/
theorem not_failure_reported : ¬ ∀ (ι H : Type) [DecidableEq ι] [DecidableEq H] (env : Env H),
    Function.Injective env.xxh32 → ∀ (cfg : ι → Config) (t : BrokerTree ι)
    (n n₀ n' : Fifo ι (Spot ι) (DdBroker H) (List Frame)),
    (∀ i, Reachable env (cfg i) (n.state i)) → n.Clear → ∀ (o : ι) (ln : LocalClient)
    (cookie dest : Frame) (payload : List Frame),
    acceptedFor env (n.state o) ln.sockid cookie = some ln → t.child o ln.sockid = none →
    missing env (n.state o) (resolve (n.state o).keys ln.tenant (CStr.ofBytes dest)).1 →
    (n.state o).state = .registered →
    n.handle (t.system env) o (sendEvent ln cookie dest payload) true = some n₀ →
    ∀ es : List (FifoEvent ι (Spot ι) Event),
    n₀.meets (t.system env) (fun n e => n.onMarked (t.system env) (t.reports env o ln) e) es →
    n₀.run (t.system env) es = some n' →
    FailureReported env (n.state o) o ln (sendEvent ln cookie dest payload) n' := by
  intro hall
  obtain ⟨⟨lower, root, n, n'⟩, hasked, hfacts⟩ := Option.map_eq_some_iff.mp asked_public
  obtain ⟨hreach, hsend, hrun⟩ := of_pairRun hasked
  simp only [Prod.mk.injEq, Bool.and_eq_true, decide_eq_true_eq] at hfacts
  obtain ⟨⟨⟨⟨hacc, hmissing⟩, hreg⟩, hmeets⟩, hmarks, hroots⟩ := hfacts
  have hreported := hall Bool _ plainEnv Function.injective_id pairConfig pairTree _ n n' hreach
    (fun _ => rfl) true headClient (cookieOf 65).1 (CStr.ascii "public.zz") [[7]] hacc rfl hmissing
    hreg hsend upAndDown hmeets hrun
  -- the one message that is left is the error at the client
  obtain ⟨q, m, hholds⟩ := hreported.once
  have hq : Spot.out true [1, 2, 3, 4, 5] = q := by
    by_contra hne
    rw [hholds, if_neg hne] at hmarks
    cases hmarks
  subst hq
  rw [hholds, if_pos rfl, List.cons.injEq] at hmarks
  obtain ⟨rfl, -⟩ := hmarks
  obtain ⟨name, src, ⟨b', src', htells⟩, htold⟩ := hreported.told
    (fun i => ⟨(hholds _).trans (if_neg (by simp)), (hholds _).trans (if_neg (by simp))⟩)
    fun i d m hm => by
      rw [hholds] at hm
      split at hm
      · rw [List.mem_singleton.mp hm]
        decide
      · cases hm
  have hrelayed := (hholds (.out true headClient.sockid)).symm.trans (htold _)
  have hsock : [1, 2, 3, 4, 5] = headClient.sockid := rfl
  rw [hsock, if_pos rfl, if_pos rfl, List.singleton_inj] at hrelayed
  have hown := hroots.symm.trans (congrArg Outcome.sends htells)
  rw [Outcome.sends, List.singleton_inj, Send.rsock.injEq] at hown
  have hname : text "zz" = text "public.zz" :=
    (nodstMsg_inj hrelayed).trans (nodstMsg_inj hown.2).symm
  exact absurd hname (by decide)

end DoubleDecker
