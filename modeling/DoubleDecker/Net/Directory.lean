import DoubleDecker.Broker.Names
import DoubleDecker.Net.Tree

/-!
# Net/Directory — who is where

A broker knows its own clients, and for the clients below it the link that leads to them.  When the
tables of all brokers say just that (`Exact`), a `SEND` leads to one `DATA`, at the client of the
name that `s_cb_send` looks for, wherever in the tree that client is (`location_transparency`).
-/

namespace DoubleDecker

open BrokerTree

variable {ι H : Type}

/-! ## Directories -/

namespace BrokerTree

variable (t : BrokerTree ι)

/-- **The brokers are linked** — every broker but the root is registered with its parent over its
link, and the clients have other sockets. -/
structure Linked [DecidableEq H] (env : Env H) (b : ι → DdBroker H) : Prop where
  root : ∀ {i}, t.parent i = none → (b i).state = .root
  registered : ∀ {i p}, t.parent i = some p → (b i).state = .registered
  known : ∀ {i p}, t.parent i = some p →
    fromBroker env (b p) (t.sockid i) (b i).keys.cookie.1
  clients : ∀ {i}, ∀ c ∈ (b i).lclCliHt.nodes, t.child i c.sockid = none

/-- **The directories are exact** — a broker maps the names of the clients at and below each of its
links to that link, and no others. -/
structure Exact (b : ι → DdBroker H) : Prop where
  sound : ∀ {p name s}, (b p).Maps name s →
    ∃ j r, t.child p s = some j ∧ j ∈ t.above r ∧ (b r).HasClient name
  complete : ∀ {p j r name}, t.parent j = some p → j ∈ t.above r → (b r).HasClient name →
    (b p).Maps name (t.sockid j)

/-- Somebody in the tree of `o` has the name. -/
def Registered (b : ι → DdBroker H) (o : ι) (name : CStr) : Prop :=
  ∃ r, t.Joined o r ∧ (b r).HasClient name

variable {t} {b : ι → DdBroker H}

/-- A name at or below a broker is found there: at a client, or behind the link to it. -/
theorem Exact.found (hexact : t.Exact b) {i r : ι} {name : CStr} (hi : i ∈ t.above r)
    (hr : (b r).HasClient name) : (b i).HasClient name ∨
      ∃ k, t.parent k = some i ∧ k ∈ t.above r ∧ (b i).Maps name (t.sockid k) := by
  obtain rfl | ⟨k, hp, hk⟩ := eq_or_exists_link hi
  · exact Or.inl hr
  · exact Or.inr ⟨k, hp, hk, hexact.complete hp hk hr⟩

/-- A name that a broker maps is below it. -/
theorem Exact.below (hexact : t.Exact b) {i : ι} {name : CStr} {s : Frame}
    (h : (b i).Maps name s) : ∃ r, i ∈ t.above r ∧ (b r).HasClient name := by
  obtain ⟨j, r, hj, habove, hr⟩ := hexact.sound h
  exact ⟨r, t.parent_mem_above habove (t.child_eq_some.mp hj).1, hr⟩

end BrokerTree

/-! ## Registrations that stay -/

/-- Two states of a broker with the same registrations. -/
structure SameRegistrations (a b : DdBroker H) : Prop where
  state : b.state = a.state
  lclCliHt : b.lclCliHt = a.lclCliHt
  revLclCliHt : b.revLclCliHt = a.revLclCliHt
  distCliHt : b.distCliHt = a.distCliHt
  lclBrHt : b.lclBrHt = a.lclBrHt

theorem SameRegistrations.refl (a : DdBroker H) : SameRegistrations a a :=
  ⟨rfl, rfl, rfl, rfl, rfl⟩

theorem SameRegistrations.trans {a b c : DdBroker H} (h : SameRegistrations a b)
    (h' : SameRegistrations b c) : SameRegistrations a c :=
  ⟨h'.state.trans h.state, h'.lclCliHt.trans h.lclCliHt, h'.revLclCliHt.trans h.revLclCliHt,
    h'.distCliHt.trans h.distCliHt, h'.lclBrHt.trans h.lclBrHt⟩

variable [DecidableEq ι] [DecidableEq H] {env : Env H} {t : BrokerTree ι}

/-- The step leaves the registrations as they are. -/
def BrokerTree.KeepsRegistrations (t : BrokerTree ι) (env : Env H)
    (n : Fifo ι (Spot ι) (DdBroker H) (List Frame)) (e : FifoEvent ι (Spot ι) Event) : Prop :=
  ∀ n' ∈ n.act (t.system env) e, ∀ i, SameRegistrations (n.state i) (n'.state i)

/-! ## The course of a notification -/

/-- The `FORWARD` that goes down for a notification. -/
def Notification.down (n : Notification) : List Frame :=
  ddMsg .forward (n.src.bytes :: n.dst.bytes :: n.payload)

/-- The `FORWARD` that goes up for a notification. -/
def Notification.up (cookie : Frame) (n : Notification) : List Frame :=
  ddMsg .forward (cookie :: n.src.bytes :: n.dst.bytes :: n.payload)

section

variable (env : Env H) (t : BrokerTree ι) (b : ι → DdBroker H) (o : ι) (height : Nat)
  (n : Notification)

/-- **Where the message that stems from a `SEND` is** after some hops: on its way up, on its way
down to somebody of the name, or delivered; or, when nobody has the name, the `ERROR_NODST` on its
way down, or at a client. -/
inductive Course : Nat → Spot ι → List Frame → Prop
  | rising {h : Nat} {i p : ι} {cookie : Frame} : h + t.depth i ≤ height → i ∈ t.above o →
      t.parent i = some p → fromBroker env (b p) (t.sockid i) cookie →
        Course h (.up i) (n.up cookie)
  | falling {h : Nat} {j r : ι} : h + 1 ≤ height + t.depth j → t.Joined o j → j ∈ t.above r →
      (b r).HasClient n.dst → Course h (.down j) n.down
  | delivered {h : Nat} {r : ι} {c : LocalClient} {s : CStr} : h ≤ 2 * height → t.Joined o r →
      c ∈ (b r).lclCliHt.nodes → c.prefixName = n.dst → n.shown = some s →
      Course h (.out r c.sockid) (ddMsg .data (s.bytes :: n.payload))
  | failing {h : Nat} {j : ι} : h + 1 ≤ height + t.depth j → ¬ t.Registered b o n.dst →
      j ∈ t.above o → Course h (.down j) (nodstMsg n.dst n.src)
  | failed {h : Nat} {i : ι} {d : Frame} {dst src : CStr} : h ≤ 2 * height →
      ¬ t.Registered b o n.dst → Course h (.out i d) (nodstMsg dst src)

end

section

variable {b : ι → DdBroker H} {o i : ι} {height h : Nat} {n : Notification} {self : DdBroker H}
  {srcpublic dstpublic : Bool} {nodst : Outcome H}

omit [DecidableEq ι] in
/-- **A destination at or below a broker** is delivered to, or the notification goes down to it. -/
theorem Course.of_found (hinj : Function.Injective env.xxh32) (hok : TablesOk env self)
    (hsame : SameRegistrations (b i) self) (hlinks : t.Linked env b) (hexact : t.Exact b)
    (hheight : ∀ i, t.depth i ≤ height) (hh : h ≤ height + t.depth i)
    {r : ι} (hi : i ∈ t.above r) (hjoined : t.Joined o i) (hr : (b r).HasClient n.dst)
    {s : CStr} (hs : n.shown = some s) (hsrc : srcpublic = n.src.startsWith publicDot)
    (hdst : dstpublic = n.dst.startsWith publicDot) :
    ∃ sends q m, carry env self srcpublic dstpublic n.src n.dst n.payload nodst =
        .done self sends ∧
          sends.filterMap (t.spot i) = [(q, m)] ∧ Course env t b o height n h q m := by
  subst hsrc hdst
  have hbound := hheight i
  obtain ⟨a, hao, hai⟩ := hjoined
  cases hrev : hashtableHasRevLocalNode env self n.dst with
  | some c =>
    obtain ⟨hmem, hname⟩ := hok.of_hasRev hinj hrev
    rw [hsame.lclCliHt] at hmem
    rw [Notification.shown] at hs
    refine ⟨[.rsock c.sockid (ddMsg .data (s.bytes :: n.payload))], .out i c.sockid, _, ?_, ?_,
      .delivered (by omega) ⟨a, hao, hai⟩ hmem hname hs⟩
    · rw [carry, hrev]
      exact (deliver_eq _ _ _ _ _ _).trans (by rw [hs])
    · simp [spot, hlinks.clients c hmem]
  | none =>
    have hnot : ¬ (b i).HasClient n.dst := by
      have hnone := (hok.hasRev_eq_none hinj).mp hrev
      rwa [DdBroker.HasClient, hsame.lclCliHt] at hnone
    obtain hi' | ⟨k, hp, hk, hmaps⟩ := hexact.found hi hr
    · exact absurd hi' hnot
    · have hmaps' : self.Maps n.dst (t.sockid k) := by
        rwa [DdBroker.Maps, hsame.distCliHt]
      obtain ⟨dn, hdist, hsock⟩ := (hok.maps_iff hinj).mp hmaps'
      refine ⟨[.rsock dn.broker n.down], .down k, n.down, ?_, ?_,
        .falling ?_ ⟨a, hao, above_trans (t.parent_mem_above (t.self_mem_above k) hp) hai⟩ hk hr⟩
      · rw [carry, hrev, hdist]
        rfl
      · simp [spot, hsock, t.child_sockid hp]
      · rw [t.depth_parent hp]
        omega

omit [DecidableEq ι] in
/-- **A destination that is not below** is missing. -/
theorem missing_of_not_found (hinj : Function.Injective env.xxh32) (hok : TablesOk env self)
    (hsame : SameRegistrations (b i) self) (hexact : t.Exact b) {name : CStr}
    (hnot : ∀ r, i ∈ t.above r → ¬ (b r).HasClient name) : missing env self name := by
  rw [missing, Bool.and_eq_true, Option.isNone_iff_eq_none, Option.isNone_iff_eq_none]
  refine ⟨(hok.hasRev_eq_none hinj).mpr fun hc => ?_, ?_⟩
  · rw [DdBroker.HasClient, hsame.lclCliHt] at hc
    exact hnot i (t.self_mem_above i) hc
  · cases hdist : hashtableHasDistNode env self name with
    | none => rfl
    | some dn =>
      obtain ⟨hmem, hname⟩ := (hok.hasDist_eq_some hinj).mp hdist
      rw [hsame.distCliHt] at hmem
      obtain ⟨r, hr, hclient⟩ := hexact.below ⟨dn, hmem, hname, rfl⟩
      exact absurd hclient (hnot r hr)

omit [DecidableEq ι] [DecidableEq H] in
/-- What is not below the root is nowhere in the tree. -/
theorem not_registered_of_root (hi : i ∈ t.above o) (hroot : t.parent i = none) {name : CStr}
    (hnot : ∀ r, i ∈ t.above r → ¬ (b r).HasClient name) : ¬ t.Registered b o name := by
  rintro ⟨r, ⟨a, hao, har⟩, hr⟩
  exact hnot r (above_trans har (root_mem_above hi hroot hao)) hr

omit [DecidableEq ι] in
/-- What a broker answers to a message of the notification's course. -/
theorem system_step_eq {e : Event} {self' : DdBroker H} {sends : List Send} {q : Spot ι}
    {m : List Frame} (h : step env self e = .done self' sends)
    (hspot : sends.filterMap (t.spot i) = [(q, m)]) :
    (t.system env).step i self e = some (self', [(q, m)]) := by
  simp only [system, h, hspot]

omit [DecidableEq ι] in
/-- **A `FORWARD` from below** goes on. -/
theorem Course.rising_step (hinj : Function.Injective env.xxh32) (hok : TablesOk env self)
    {p : ι} (hsame : SameRegistrations (b p) self) (hkeys : self.keys = (b p).keys)
    (hlinks : t.Linked env b) (hexact : t.Exact b) (hheight : ∀ i, t.depth i ≤ height)
    {s : CStr} (hs : n.shown = some s) {cookie : Frame} (hh : h + t.depth i ≤ height)
    (hi : i ∈ t.above o) (hp : t.parent i = some p)
    (hfrom : fromBroker env (b p) (t.sockid i) cookie) :
    ∃ self' q m, (t.system env).step p self (.router (t.sockid i :: n.up cookie)) =
      some (self', [(q, m)]) ∧ Course env t b o height n (h + 1) q m := by
  have hdepth := t.depth_parent hp
  have hpo : p ∈ t.above o := t.parent_mem_above hi hp
  have hfrom' : fromBroker env self (t.sockid i) cookie := by
    simpa only [fromBroker, hashtableHasLocalBroker, hsame.lclBrHt] using hfrom
  obtain ⟨cookie', np, hc, hnp⟩ := fromBroker_eq_true.mp hfrom'
  have hstep : step env self (.router (t.sockid i :: n.up cookie)) = _ :=
    (step_router (routerCmd_ddMsg _ _ _)).trans (sCbForwardRsock_eq hc hnp _ _ _)
  simp only [CStr.ofBytes_bytes] at hstep
  have hok' := (sameTables_touchBroker self np).tablesOk hok
  have hsame' : SameRegistrations (b p) (self.touchBroker np) := { hsame with }
  by_cases hbelow : ∃ r, p ∈ t.above r ∧ (b r).HasClient n.dst
  · obtain ⟨r, hr, hclient⟩ := hbelow
    obtain ⟨sends, q, m, hcarry, hspot, hcourse⟩ := Course.of_found hinj hok' hsame' hlinks hexact
      hheight (show h + 1 ≤ height + t.depth p by omega) hr ⟨p, hpo, t.self_mem_above p⟩ hclient hs
      rfl rfl
    exact ⟨_, q, m, system_step_eq (hstep.trans hcarry) hspot, hcourse⟩
  · have hnot' : ∀ r, p ∈ t.above r → ¬ (b r).HasClient n.dst := fun r hr hc => hbelow ⟨r, hr, hc⟩
    rw [carry_missing (missing_of_not_found hinj hok' hsame' hexact hnot')] at hstep
    cases hparent : t.parent p with
    | none =>
      rw [if_pos (hsame'.state.trans (hlinks.root hparent))] at hstep
      refine ⟨_, .down i, _, system_step_eq hstep ?_,
        .failing (by omega) (not_registered_of_root hpo hparent hnot') hi⟩
      simp [destInvalidRsock, spot, t.child_sockid hp, nodstMsg]
    | some p' =>
      have hreg : (self.touchBroker np).state = .registered :=
        hsame'.state.trans (hlinks.registered hparent)
      rw [if_neg (by rw [hreg]; decide)] at hstep
      refine ⟨_, _, _, system_step_eq hstep (spot_forwardUp hreg),
        .rising (by omega) hpo hparent ?_⟩
      rw [show (self.touchBroker np).keys = _ from hkeys]
      exact hlinks.known hparent

omit [DecidableEq ι] in
/-- **A `FORWARD` from above** goes on, or is delivered. -/
theorem Course.falling_step (hinj : Function.Injective env.xxh32) (hok : TablesOk env self)
    (hsame : SameRegistrations (b i) self) (hlinks : t.Linked env b) (hexact : t.Exact b)
    (hheight : ∀ i, t.depth i ≤ height) {s : CStr} (hs : n.shown = some s) {r : ι}
    (hh : h + 1 ≤ height + t.depth i) (hjoined : t.Joined o i) (hi : i ∈ t.above r)
    (hr : (b r).HasClient n.dst) :
    ∃ self' q m, (t.system env).step i self (.dealer n.down) = some (self', [(q, m)]) ∧
      Course env t b o height n (h + 1) q m := by
  have hstep : step env self (.dealer n.down) = _ :=
    (step_dealer (dealerCmd_ddMsg _ _)).trans (sCbForwardDsock_eq _ _ _ _)
  simp only [CStr.ofBytes_bytes] at hstep
  have hok' : TablesOk env { self with timeout := 0 } := { hok with }
  have hsame' : SameRegistrations (b i) { self with timeout := 0 } := { hsame with }
  obtain ⟨sends, q, m, hcarry, hspot, hcourse⟩ := Course.of_found hinj hok' hsame' hlinks hexact
    hheight hh hi hjoined hr hs rfl rfl
  exact ⟨_, q, m, system_step_eq (hstep.trans hcarry) hspot, hcourse⟩

omit [DecidableEq ι] in
/-- **An `ERROR_NODST`** goes on to the sender, or is shown to somebody of its name. -/
theorem Course.failing_step (hinj : Function.Injective env.xxh32) (hok : TablesOk env self)
    (hsame : SameRegistrations (b i) self) (hlinks : t.Linked env b) (hexact : t.Exact b)
    (hheight : ∀ i, t.depth i ≤ height) {name : CStr} (hname : n.dst.after dot = some name)
    (hsender : (b o).HasClient n.src) (hh : h + 1 ≤ height + t.depth i)
    (hnot : ¬ t.Registered b o n.dst) (hi : i ∈ t.above o) :
    ∃ self' q m, (t.system env).step i self (.dealer (nodstMsg n.dst n.src)) =
      some (self', [(q, m)]) ∧ Course env t b o height n (h + 1) q m := by
  have hbound := hheight i
  have hstep := @step_nodst _ _ env self n.dst n.src
  cases hrev : hashtableHasRevLocalNode env self n.src with
  | some c =>
    obtain ⟨hmem, -⟩ := hok.of_hasRev hinj hrev
    rw [hsame.lclCliHt] at hmem
    rw [hrev, hname] at hstep
    refine ⟨_, .out i c.sockid, nodstMsg name n.src, system_step_eq hstep ?_,
      .failed (by omega) hnot⟩
    simp [spot, hlinks.clients c hmem]
  | none =>
    have hnone := (hok.hasRev_eq_none hinj).mp hrev
    rw [DdBroker.HasClient, hsame.lclCliHt] at hnone
    obtain hi' | ⟨k, hp, hk, hmaps⟩ := hexact.found hi hsender
    · exact absurd hi' hnone
    · have hmaps' : self.Maps n.src (t.sockid k) := by
        rwa [DdBroker.Maps, hsame.distCliHt]
      obtain ⟨dn, hdist, hsock⟩ := (hok.maps_iff hinj).mp hmaps'
      rw [hrev, hdist] at hstep
      refine ⟨_, .down k, nodstMsg n.dst n.src, system_step_eq hstep ?_, .failing ?_ hnot hk⟩
      · simp [spot, hsock, t.child_sockid hp]
      · rw [t.depth_parent hp]
        omega

omit [DecidableEq ι] in
/-- **Every arrival of the message is handled, and its course goes on.** -/
theorem Course.arrival (hinj : Function.Injective env.xxh32) (hok : TablesOk env self)
    (hsame : SameRegistrations (b i) self) (hkeys : self.keys = (b i).keys)
    (hlinks : t.Linked env b) (hexact : t.Exact b) (hheight : ∀ i, t.depth i ≤ height)
    {s name : CStr}
    (hs : n.shown = some s) (hname : n.dst.after dot = some name) (hsender : (b o).HasClient n.src)
    {q : Spot ι} {m : List Frame} (hcourse : Course env t b o height n h q m) {e : Event}
    (harr : t.arrive q m = some (i, e)) : ∃ self' q' m',
      (t.system env).step i self e = some (self', [(q', m')]) ∧
      Course env t b o height n (h + 1) q' m' := by
  cases hcourse with
  | rising hh hi hp hfrom =>
    rw [arrive, hp] at harr
    cases harr
    exact Course.rising_step hinj hok hsame hkeys hlinks hexact hheight hs hh hi hp hfrom
  | falling hh hjoined hi hr =>
    cases harr
    exact Course.falling_step hinj hok hsame hlinks hexact hheight hs hh hjoined hi hr
  | delivered => cases harr
  | failing hh hnot hi =>
    cases harr
    exact Course.failing_step hinj hok hsame hlinks hexact hheight hname hsender hh hnot hi
  | failed => cases harr

/-! ## The `SEND` -/

variable {ln : LocalClient} {cookie dest : Frame} {payload : List Frame}

/-- A source with a dot is shown to every receiver. -/
theorem exists_shownSource {src name : CStr} (h : src.after dot = some name)
    (srcpublic dstpublic : Bool) : ∃ s, shownSource srcpublic dstpublic src = some s := by
  unfold shownSource
  split
  · exact ⟨src, rfl⟩
  · exact ⟨name, h⟩

omit [DecidableEq H] in
/-- The root answers a `SEND` to nobody. -/
theorem exists_sendNodst {sockid : Frame} {src dst name name' : CStr}
    (hsrc : src.after dot = some name) (hdst : dst.after dot = some name')
    (srcpublic dstpublic : Bool) : ∃ src' dst', sendNodst self sockid srcpublic dstpublic src dst =
      .done self [.rsock sockid (nodstMsg dst' src')] := by
  unfold sendNodst
  split
  · exact ⟨_, _, rfl⟩
  · rw [hsrc, hdst]
    exact ⟨_, _, rfl⟩

omit [DecidableEq ι] in
/-- **The `SEND` is handled**, and the notification sets out. -/
theorem Course.start (hinj : Function.Injective env.xxh32) (hok : TablesOk env (b o))
    (hlinks : t.Linked env b) (hexact : t.Exact b) (hheight : ∀ i, t.depth i ≤ height)
    (hacc : acceptedFor env (b o) ln.sockid cookie = some ln) (hdot : dot ∉ ln.tenant.bytes) :
    ∃ q m, (t.system env).step o (b o) (sendEvent ln cookie dest payload) =
        some ((b o).touch ln, [(q, m)]) ∧
      Course env t b o height (resolved (b o).keys ln (CStr.ofBytes dest) payload) 0 q m := by
  have hmem := (hok.of_hasLocal hinj (acceptedFor_eq_some.mp hacc)).1
  have hfits := hok.tenant_fits hmem
  obtain ⟨name, hname⟩ := hok.exists_after hmem
  obtain ⟨name', hname'⟩ := exists_after_resolve (b o).keys hfits (CStr.ofBytes dest)
  have hok' := (sameTables_touch (b o) ln).tablesOk hok
  have hsame' : SameRegistrations (b o) ((b o).touch ln) := ⟨rfl, rfl, rfl, rfl, rfl⟩
  have hstep := @step_send _ ln cookie dest payload _ env (b o) hacc
  set n := resolved (b o).keys ln (CStr.ofBytes dest) payload with hn
  by_cases hbelow : ∃ r, o ∈ t.above r ∧ (b r).HasClient n.dst
  · obtain ⟨r, hr, hclient⟩ := hbelow
    obtain ⟨s, hs⟩ := exists_shownSource hname (n.src.startsWith publicDot)
      (n.dst.startsWith publicDot)
    obtain ⟨sends, q, m, hcarry, hspot, hcourse⟩ := Course.of_found hinj hok' hsame' hlinks hexact
      hheight (Nat.zero_le _) hr ⟨o, t.self_mem_above o, t.self_mem_above o⟩ hclient hs
      (hok.srcpublic hmem hdot) (resolve_public (b o).keys hfits hdot (CStr.ofBytes dest)).symm
    exact ⟨q, m, system_step_eq (hstep.trans hcarry) hspot, hcourse⟩
  · have hnot : ∀ r, o ∈ t.above r → ¬ (b r).HasClient n.dst := fun r hr hc => hbelow ⟨r, hr, hc⟩
    have hdepth := hheight o
    have hstep := hstep.trans (carry_missing (missing_of_not_found hinj hok' hsame' hexact hnot))
    cases hparent : t.parent o with
    | none =>
      obtain ⟨src', dst', hnodst⟩ := @exists_sendNodst _ ((b o).touch ln) ln.sockid _ _ _ _ hname
        hname'
        (decide (ln.tenant = publicName)) (resolve (b o).keys ln.tenant (CStr.ofBytes dest)).2
      rw [if_pos (hsame'.state.trans (hlinks.root hparent)), hnodst] at hstep
      refine ⟨.out o ln.sockid, nodstMsg dst' src', system_step_eq hstep ?_,
        .failed (Nat.zero_le _) (not_registered_of_root (t.self_mem_above o) hparent hnot)⟩
      simp [spot, hlinks.clients ln hmem]
    | some p =>
      have hreg : ((b o).touch ln).state = .registered :=
        hsame'.state.trans (hlinks.registered hparent)
      rw [if_neg (by rw [hreg]; decide)] at hstep
      exact ⟨_, _, system_step_eq hstep (spot_forwardUp hreg),
        .rising (by omega) (t.self_mem_above o) hparent (hlinks.known hparent)⟩

end

/-! ## Every run -/

/-- **Where the client is does not matter** — the message that stems from the `SEND` is handled
whenever it arrives.  When it arrives nowhere any more and the client is in the tree, it is a `DATA`
with the payload, handed to the socket of a client of that name, and the same message as the
sender's own broker would have sent had the client been one of its own.  When the client is not in
the tree, no `DATA` stems from the `SEND`. -/
structure Conveyed (env : Env H) (t : BrokerTree ι) (b : ι → DdBroker H) (o : ι) (ln : LocalClient)
    (cookie dest : Frame) (payload : List Frame)
    (n' : Fifo ι (Spot ι) (DdBroker H) (List Frame)) : Prop where
  handled : ∀ q m rest, n'.queue q = (m, true) :: rest → (t.arrive q m).isSome →
    (n'.act (t.system env) (.move q)).isSome
  found : t.Registered b o (resolve (b o).keys ln.tenant (CStr.ofBytes dest)).1 →
    (∀ q, ∀ m ∈ n'.marks q, t.arrive q m = none) → ∃ r c s, t.Joined o r ∧
      c ∈ (b r).lclCliHt.nodes ∧
      c.prefixName = (resolve (b o).keys ln.tenant (CStr.ofBytes dest)).1 ∧
      n'.Holds (.out r c.sockid) (ddMsg .data (s :: payload)) ∧
      ∀ (b₁ : DdBroker H) (c₁ : LocalClient), b₁.keys = (b o).keys →
        acceptedFor env b₁ ln.sockid cookie = some ln →
        hashtableHasRevLocalNode env b₁ (resolve (b o).keys ln.tenant (CStr.ofBytes dest)).1 =
          some c₁ →
        (step env b₁ (sendEvent ln cookie dest payload)).sends =
          [.rsock c₁.sockid (ddMsg .data (s :: payload))]
  lost : ¬ t.Registered b o (resolve (b o).keys ln.tenant (CStr.ofBytes dest)).1 →
    ∀ q, ∀ m ∈ n'.marks q, (dealerCmd m).map Prod.fst ≠ some .data

section

variable {b : ι → DdBroker H} {o : ι} {height h : Nat} {q : Spot ι} {m : List Frame}
  {n : Notification}

omit [DecidableEq ι] in
/-- The message makes no more hops than twice the height of the tree. -/
theorem Course.hops_le (hcourse : Course env t b o height n h q m)
    (hheight : ∀ i, t.depth i ≤ height) : h ≤ 2 * height := by
  cases hcourse with
  | rising hh => omega
  | @falling j _ hh =>
    have := hheight j
    omega
  | delivered hh => exact hh
  | @failing j hh =>
    have := hheight j
    omega
  | failed hh => exact hh

omit [DecidableEq ι] in
/-- The message that has come to rest, when somebody has the name. -/
theorem Course.found (hcourse : Course env t b o height n h q m) (hrest : t.arrive q m = none)
    (hreg : t.Registered b o n.dst) : ∃ r c s, t.Joined o r ∧ c ∈ (b r).lclCliHt.nodes ∧
      c.prefixName = n.dst ∧ n.shown = some s ∧ q = .out r c.sockid ∧
      m = ddMsg .data (s.bytes :: n.payload) := by
  cases hcourse with
  | rising _ _ hp =>
    rw [arrive, hp] at hrest
    cases hrest
  | falling => cases hrest
  | delivered _ hjoined hc hname hs => exact ⟨_, _, _, hjoined, hc, hname, hs, rfl, rfl⟩
  | failing => cases hrest
  | failed _ hnot => exact absurd hreg hnot

omit [DecidableEq ι] in
/-- No `DATA` when nobody has the name. -/
theorem Course.lost (hcourse : Course env t b o height n h q m)
    (hnot : ¬ t.Registered b o n.dst) : (dealerCmd m).map Prod.fst ≠ some .data := by
  cases hcourse with
  | rising => simp [Notification.up]
  | falling => simp [Notification.down]
  | delivered _ hjoined hc hname => exact absurd ⟨_, hjoined, _, hc, hname⟩ hnot
  | failing => simp [nodstMsg]
  | failed => simp [nodstMsg]

end

/-- The steps of a run that leaves the registrations as they are. -/
theorem steady_act (hinj : Function.Injective env.xxh32) {b : ι → DdBroker H}
    {n n' : Fifo ι (Spot ι) (DdBroker H) (List Frame)} {e : FifoEvent ι (Spot ι) Event}
    (h : ∀ i, TablesOk env (n.state i) ∧ (n.state i).keys = (b i).keys ∧
      SameRegistrations (b i) (n.state i)) (hkeeps : t.KeepsRegistrations env n e)
    (hact : n.act (t.system env) e = some n') : ∀ i, TablesOk env (n'.state i) ∧
      (n'.state i).keys = (b i).keys ∧ SameRegistrations (b i) (n'.state i) := by
  have hnext := Fifo.state_act (fun i s => TablesOk env s ∧ s.keys = (b i).keys)
    (fun i s e s' msgs hi hs => by
      obtain ⟨sends, hs, -⟩ := system_step_eq_some hs
      exact ⟨hi.1.step hinj hs, (step_frame hs).keys.trans hi.2⟩)
    (fun i => ⟨(h i).1, (h i).2.1⟩) hact
  exact fun i => ⟨(hnext i).1, (hnext i).2, (h i).2.2.trans (hkeeps n' hact i)⟩

/-- **Location transparency of notifications.** -/
theorem location_transparency (hinj : Function.Injective env.xxh32) {cfg : ι → Config}
    {n : Fifo ι (Spot ι) (DdBroker H) (List Frame)} {height : Nat}
    (hheight : ∀ i, t.depth i ≤ height) (hreach : ∀ i, Reachable env (cfg i) (n.state i))
    (hlinks : t.Linked env n.state) (hexact : t.Exact n.state) (hclear : n.Clear)
    {o : ι} {ln : LocalClient} {cookie dest : Frame} (payload : List Frame)
    (hacc : acceptedFor env (n.state o) ln.sockid cookie = some ln) (hdot : dot ∉ ln.tenant.bytes) :
    ∃ n₀, n.handle (t.system env) o (sendEvent ln cookie dest payload) true = some n₀ ∧
      ∀ (es : List (FifoEvent ι (Spot ι) Event)) n',
        n₀.meets (t.system env) (t.KeepsRegistrations env) es →
        n₀.run (t.system env) es = some n' →
        n₀.hops (t.system env) es ≤ 2 * height ∧
        Conveyed env t n.state o ln cookie dest payload n' := by
  have hok : ∀ i, TablesOk env (n.state i) := fun i => (hreach i).tablesOk hinj
  have hmem := ((hok o).of_hasLocal hinj (acceptedFor_eq_some.mp hacc)).1
  have hfits := (hok o).tenant_fits hmem
  have hsrc := (hok o).srcpublic hmem hdot
  have hdst := resolve_public (n.state o).keys hfits hdot (CStr.ofBytes dest)
  obtain ⟨name, hname⟩ := (hok o).exists_after hmem
  obtain ⟨name', hname'⟩ := exists_after_resolve (n.state o).keys hfits (CStr.ofBytes dest)
  set nf := resolved (n.state o).keys ln (CStr.ofBytes dest) payload with hnf
  obtain ⟨s, hs⟩ : ∃ s, nf.shown = some s := exists_shownSource hname _ _
  obtain ⟨q, m, hstep, hcourse⟩ := @Course.start _ _ _ env t n.state o height ln cookie dest payload
    hinj (hok o) hlinks hexact hheight hacc hdot
  have hsend : n.handle (t.system env) o (sendEvent ln cookie dest payload) true = some _ :=
    congrArg (Option.map _) hstep
  refine ⟨_, hsend, fun es n' hmeets hrun => ?_⟩
  -- what stays during the run
  have hsteady : ∀ i, TablesOk env (Function.update n.state o ((n.state o).touch ln) i) ∧
      (Function.update n.state o ((n.state o).touch ln) i).keys = (n.state i).keys ∧
      SameRegistrations (n.state i) (Function.update n.state o ((n.state o).touch ln) i) := by
    intro i
    by_cases hi : i = o
    · subst hi
      rw [Function.update_self]
      exact ⟨(sameTables_touch (n.state i) ln).tablesOk (hok i), rfl, ⟨rfl, rfl, rfl, rfl, rfl⟩⟩
    · rw [Function.update_of_ne hi]
      exact ⟨hok i, rfl, .refl _⟩
  obtain ⟨hsteady', q', m', hholds, hcourse'⟩ := Fifo.Holds.run
    (fun n' => ∀ i, TablesOk env (n'.state i) ∧ (n'.state i).keys = (n.state i).keys ∧
      SameRegistrations (n.state i) (n'.state i))
    (Course env t n.state o height nf) (fun _ _ _ => steady_act hinj)
    (fun n₁ h q m rest i e self' msgs hn₁ _ hc _ harr hst => by
      obtain ⟨hok₁, hkeys₁, hsame₁⟩ := hn₁ i
      obtain ⟨self₂, q₂, m₂, hst₂, hc₂⟩ := hc.arrival hinj hok₁ hsame₁ hkeys₁ hlinks hexact
        hheight hs
        hname' ⟨ln, hmem, rfl⟩ harr
      rw [hst₂] at hst
      cases hst
      exact ⟨q₂, m₂, rfl, hc₂⟩)
    hsteady (hclear.holds hstep hsend) hcourse hmeets hrun
  refine ⟨hcourse'.hops_le hheight, fun q m rest hq harr => ?_, fun hreg hrest => ?_,
    fun hnot q m hm => ?_⟩
  · obtain ⟨rfl, rfl⟩ := hholds.eq_of_mem (Fifo.mem_marks_of_head hq)
    obtain ⟨⟨i, e⟩, harr⟩ := Option.isSome_iff_exists.mp harr
    obtain ⟨hok', hkeys', hsame'⟩ := hsteady' i
    obtain ⟨_, _, _, hst, -⟩ := hcourse'.arrival hinj hok' hsame' hkeys' hlinks hexact hheight hs
      hname' ⟨ln, hmem, rfl⟩ harr
    exact Fifo.act_move_isSome hq harr hst
  · obtain ⟨r, c, s', hjoined, hc, hcname, hs', rfl, rfl⟩ :=
      hcourse'.found (hrest _ _ hholds.mem) hreg
    refine ⟨r, c, s'.bytes, hjoined, hc, hcname, hholds, fun b₁ c₁ hkeys₁ hacc₁ hrev₁ => ?_⟩
    have hown := @step_send _ ln cookie dest payload _ env b₁ hacc₁
    rw [hkeys₁, hsrc, ← hdst, carry,
      show hashtableHasRevLocalNode env (b₁.touch ln) _ = _ from hrev₁]
      at hown
    have hshown : shownSource (ln.prefixName.startsWith publicDot)
      ((resolve (n.state o).keys ln.tenant (CStr.ofBytes dest)).1.startsWith publicDot)
      ln.prefixName = some s' := hs'
    rw [hown]
    simp only [deliver_eq, hshown]
    rfl
  · obtain ⟨rfl, rfl⟩ := hholds.eq_of_mem hm
    exact hcourse'.lost hnot

/-- The root has a client `a.d` of its own. -/
def rootRunD : List Event := rootRun ++ [secondClient]

/-- The notification goes up. -/
def upOnce : List (FifoEvent Bool (Spot Bool) Event) := [.move (.up true)]

theorem pairRun_d : (pairRun rootRunD (CStr.ascii "d") upOnce).map (fun r =>
    (decide (acceptedFor plainEnv r.1 [1, 2, 3, 4, 5] (cookieOf 65).1 = some headClient) &&
      decide (r.1.state = .registered) && decide (r.2.1.state = .root) &&
      fromBroker plainEnv r.2.1 [1] r.1.keys.cookie.1 &&
      decide (r.1.lclCliHt.nodes = [headClient]) && decide (r.1.distCliHt.nodes = []) &&
      decide (∀ c ∈ r.2.1.lclCliHt.nodes, c.sockid ≠ [1]) &&
      decide (r.2.1.distCliHt.nodes = [⟨text "a.x", [1], 0⟩]) &&
      decide (∀ i, (r.2.2.2.state i).state = (r.2.2.1.state i).state ∧
        (r.2.2.2.state i).lclCliHt = (r.2.2.1.state i).lclCliHt ∧
        (r.2.2.2.state i).revLclCliHt = (r.2.2.1.state i).revLclCliHt ∧
        (r.2.2.2.state i).distCliHt = (r.2.2.1.state i).distCliHt ∧
        (r.2.2.2.state i).lclBrHt = (r.2.2.1.state i).lclBrHt),
      r.2.2.2.marks (.out false [6]))) =
    some (true, [ddMsg .data [CStr.ascii "x", [7]]]) := by
  decide

theorem location_transparency_d :
    ∃ (lower root : DdBroker (List UInt8))
      (n' : Fifo Bool (Spot Bool) (DdBroker (List UInt8)) (List Frame)),
      (pairRun rootRunD (CStr.ascii "d") upOnce).map (fun r => (r.1, r.2.1, r.2.2.2)) =
        some (lower, root, n') ∧
      n'.marks (.out false [6]) = [ddMsg .data [CStr.ascii "x", [7]]] ∧
      Conveyed plainEnv pairTree (pairNet lower root).state true headClient (cookieOf 65).1
        (CStr.ascii "d") [[7]] n' := by
  obtain ⟨⟨lower, root, n, n'⟩, hasked, hfacts⟩ := Option.map_eq_some_iff.mp pairRun_d
  obtain ⟨hreach, hsend, hrun⟩ := of_pairRun hasked
  simp only [Prod.mk.injEq, Bool.and_eq_true, decide_eq_true_eq] at hfacts
  obtain ⟨⟨⟨⟨⟨⟨⟨⟨⟨hacc, hregistered⟩, hroot⟩, hknown⟩, hlower⟩, hlowerDist⟩, hrootSock⟩, hrootDist⟩,
    hsame⟩, hmarks⟩ := hfacts
  have hlinks : pairTree.Linked plainEnv (pairNet lower root).state := by
    refine ⟨fun {i} hi => ?_, fun {i p} hi => ?_, fun {i p} hi => ?_, fun {i} c hc => ?_⟩
    · cases i
      · exact hroot
      · cases hi
    · cases i
      · cases hi
      · exact hregistered
    · cases i
      · cases hi
      · cases hi
        exact hknown
    · cases i
      · exact if_neg fun h => hrootSock c hc h.2
      · rfl
  have hexact : pairTree.Exact (pairNet lower root).state := by
    refine ⟨?_, ?_⟩
    · rintro p name s ⟨dn, hdn, rfl, rfl⟩
      cases p
      · cases List.mem_singleton.mp (hrootDist ▸ hdn)
        refine ⟨true, true, rfl, by decide, headClient, ?_, rfl⟩
        exact hlower ▸ List.mem_singleton_self _
      · exact absurd (hlowerDist ▸ hdn) List.not_mem_nil
    · rintro p j r name hj hr ⟨c, hc, rfl⟩
      cases j
      · cases hj
      · cases hj
        cases r
        · exact absurd hr (by decide)
        · cases List.mem_singleton.mp (hlower ▸ hc)
          exact ⟨_, hrootDist ▸ List.mem_singleton_self _, rfl, rfl⟩
  obtain ⟨n₀, hn₀, hruns⟩ := @location_transparency Bool _ _ _ plainEnv pairTree
    Function.injective_id pairConfig (pairNet lower root) 1 (by decide) hreach hlinks hexact
    (fun _ => rfl) true headClient (cookieOf 65).1 (CStr.ascii "d") [[7]] hacc (by decide)
  obtain rfl : n₀ = n := Option.some.inj (hn₀.symm.trans hsend)
  have hkeeps : n₀.meets (pairTree.system plainEnv)
    (pairTree.KeepsRegistrations plainEnv) upOnce := by
    refine ⟨fun n₁ hn₁ i => ?_, fun _ _ => trivial⟩
    obtain ⟨n₂, hact, hnil⟩ := Option.bind_eq_some_iff.mp hrun
    cases hnil
    obtain rfl : n₁ = n' := Option.some.inj ((Option.mem_def.mp hn₁).symm.trans hact)
    obtain ⟨h₁, h₂, h₃, h₄, h₅⟩ := hsame i
    exact ⟨h₁, h₂, h₃, h₄, h₅⟩
  exact ⟨lower, root, n', by rw [hasked]; rfl, hmarks, (hruns upOnce n' hkeeps hrun).2⟩

end DoubleDecker
