import DoubleDecker.Broker.Subs

/-!
# Net/Uplink — a lower broker that registers again

A lower broker that misses its `PONG`s takes itself for a root, opens a new dealer socket and
registers over it; the higher broker forgets the old socket on a clock of its own.  An announcement
that comes before that is answered with a `REGFAIL`, and the lower broker removes the client.  In
the runs in which the old entry is gone by then every client stays, and is found under the new
socket id (`reregistration_keeps`).
-/

namespace DoubleDecker

variable {H : Type} [DecidableEq H] (env : Env H)

/-! ## Two brokers and the sockets between them -/

/-- The clients a broker announces when it has registered: the local ones, then the distant ones. -/
def announced {H : Type} (b : DdBroker H) : List (CStr × UInt32) :=
  b.lclCliHt.nodes.map (fun np => (np.prefixName, 0)) ++
    b.distCliHt.nodes.map fun nd => (nd.name, nd.distance)

/-- The `ADDDCL` of a client. -/
def announce {H : Type} (b : DdBroker H) (p : CStr × UInt32) : List Frame :=
  ddMsg .adddcl [b.keys.cookie.1, p.1.bytes, le32 p.2]

/-- A lower broker and its higher broker.  `sockid` is what the higher broker calls the dealer
socket of the lower one; `up` has the messages on their way up, each with the socket id it was sent
under, `down` those for the socket that is open now. -/
structure Uplink (H : Type) where
  lower : DdBroker H
  higher : DdBroker H
  sockid : Frame
  up : List (Frame × List Frame)
  down : List (List Frame)

/-- What happens next. -/
inductive UplinkEvent where
  /-- The lower broker's registration timer; a socket it opens gets this id. -/
  | register (sockid : Frame)
  /-- The lower broker's heartbeat. -/
  | heartbeat
  /-- The next message arrives at the lower broker. -/
  | toLower
  /-- A `PONG` is lost. -/
  | losePong (i : Nat)
  /-- The first message of its socket arrives at the higher broker. -/
  | toHigher (i : Nat)
  /-- A `PING`, or a message of a socket that was closed, is lost. -/
  | lose (i : Nat)
  /-- The higher broker's check of its brokers. -/
  | checkBrTimeout

namespace Uplink

variable (u : Uplink H)

/-- The two brokers before anything was sent. -/
def start {H : Type} (lower higher : DdBroker H) (sockid : Frame) : Uplink H :=
  ⟨lower, higher, sockid, [], []⟩

/-- The lower broker handles an event. -/
def lowerActs (e : Event) : Option (Uplink H) :=
  if e.enabled u.lower then
    match step env u.lower e with
    | .done b sends => some { u with
        lower := b, up := u.up ++ (sends.filterMap Send.toHigher).map fun m => (u.sockid, m) }
    | .fault _ => none
  else none

/-- The higher broker handles an event. -/
def higherActs (e : Event) : Option (Uplink H) :=
  match step env u.higher e with
  | .done b sends => some { u with
      higher := b, down := u.down ++ sends.filterMap (Send.toSocket u.sockid) }
  | .fault _ => none

/-- Whether a socket id is new to the higher broker. -/
def fresh {H : Type} (u : Uplink H) (sockid : Frame) : Bool :=
  sockid ≠ u.sockid && u.up.all (fun p => p.1 ≠ sockid) &&
    u.higher.lclBrHt.nodes.all fun b => b.sockid ≠ sockid

/-- What an event does.  A message that its receiver does not survive has no outcome. -/
def act : UplinkEvent → Option (Uplink H)
  | .register sockid =>
    if u.lower.state = .registered then u.lowerActs env .register
    else if u.fresh sockid then { u with sockid, down := [] }.lowerActs env .register
    else none
  | .heartbeat => u.lowerActs env .heartbeat
  | .toLower =>
    match u.down with
    | [] => none
    | m :: down => { u with down }.lowerActs env (.dealer m)
  | .losePong i =>
    if u.down[i]? = some (ddMsg .pong []) then some { u with down := u.down.eraseIdx i } else none
  | .toHigher i =>
    match u.up[i]? with
    | none => none
    | some (source, m) =>
      if (u.up.take i).any fun p => p.1 = source then none
      else { u with up := u.up.eraseIdx i }.higherActs env (.router (source :: m))
  | .lose i =>
    match u.up[i]? with
    | none => none
    | some (source, m) =>
      if source ≠ u.sockid ∨ m = ddMsg .ping [u.lower.keys.cookie.1] then
        some { u with up := u.up.eraseIdx i }
      else none
  | .checkBrTimeout => u.higherActs env .checkBrTimeout

/-- The brokers after some events, the first one first. -/
def run (u : Uplink H) : List UplinkEvent → Option (Uplink H)
  | [] => some u
  | e :: es => (u.act env e).bind fun u => u.run es

/-- The events meet a condition at every step. -/
def meets (cond : Uplink H → UplinkEvent → Bool) (u : Uplink H) : List UplinkEvent → Bool
  | [] => true
  | e :: es => cond u e && (u.act env e).all fun u => u.meets cond es

/-- Whether a message for the dealer is a `REGOK`. -/
def isRegok (m : List Frame) : Bool := (dealerCmd m).map Prod.fst = some .regok

/-- The lower broker is registered, or about to be. -/
def linked {H : Type} (u : Uplink H) : Bool :=
  u.lower.state = .registered || u.down.any isRegok

/-- Whether a message announces a client under a name that is still taken. -/
def taken (m : List Frame) : Bool :=
  match routerCmd (u.sockid :: m) with
  | some (_, .adddcl, _ :: name :: _) =>
    (hashtableHasDistNode env u.higher (CStr.ofBytes name)).isSome
  | _ => false

/-- **A step that keeps the clients** — no announcement of the open socket meets an entry of its
name, and the higher broker does not give up on the socket while the lower broker is registered over
it. -/
def calm : UplinkEvent → Bool
  | .toHigher i =>
    match u.up[i]? with
    | none => true
    | some (source, m) => source ≠ u.sockid || !u.taken env m
  | .checkBrTimeout =>
    !u.linked || u.higher.lclBrHt.nodes.all fun b =>
      b.sockid ≠ u.sockid || u.higher.brTimeout b < 3
  | _ => true

/-- **The clients of the lower broker are kept** — none is gone from its tables, and when the higher
broker has their announcements it finds them under the open socket. -/
structure Keeps (b : DdBroker H) : Prop where
  clients : u.lower.lclCliHt = b.lclCliHt
  names : u.lower.revLclCliHt = b.revLclCliHt
  distant : u.lower.distCliHt = b.distCliHt
  mapped : u.lower.state = .registered → (∀ p ∈ announced b, (u.sockid, announce b p) ∉ u.up) →
    ∀ p ∈ announced b, ∃ d, hashtableHasDistNode env u.higher p.1 = some d ∧ d.broker = u.sockid

end Uplink

/-! ## Messages on their way -/

/-- What the lower broker sends up. -/
inductive Upward {H : Type} (b : DdBroker H) : List Frame → Prop
  | addbr : Upward b (ddMsg .addbr [b.keys.hash.bytes])
  | challok (cook : Frame) :
      Upward b (ddMsg .challok [cook, b.keys.hash.bytes, CStr.ascii "broker"])
  | ping : Upward b (ddMsg .ping [b.keys.cookie.1])
  | adddcl {p : CStr × UInt32} : p ∈ announced b → Upward b (announce b p)

/-- What the higher broker sends down. -/
inductive Downward : List Frame → Prop
  | chall (body : List Frame) : Downward (ddMsg .chall body)
  | regok (body : List Frame) : Downward (ddMsg .regok body)
  | pong : Downward (ddMsg .pong [])

omit [DecidableEq H] in
/-- Two brokers with the same tables announce the same clients. -/
theorem SameTables.announced {a b : DdBroker H} (h : SameTables a b) :
    DoubleDecker.announced b = DoubleDecker.announced a := by
  rw [DoubleDecker.announced, DoubleDecker.announced, h.lclCliHt, h.distCliHt]

omit [DecidableEq H] in
theorem SameTables.announce {a b : DdBroker H} (h : SameTables a b) :
    DoubleDecker.announce b = DoubleDecker.announce a := by
  funext p
  rw [DoubleDecker.announce, DoubleDecker.announce, h.keys]

omit [DecidableEq H] in
theorem SameTables.trans {a b c : DdBroker H} (h : SameTables a b) (h' : SameTables b c) :
    SameTables a c :=
  ⟨h'.keys.trans h.keys, h'.scope.trans h.scope, h'.brokerScope.trans h.brokerScope,
    h'.topicsTrie.trans h.topicsTrie, h'.lclCliHt.trans h.lclCliHt,
    h'.revLclCliHt.trans h.revLclCliHt, h'.distCliHt.trans h.distCliHt,
    h'.lclBrHt.trans h.lclBrHt, h'.subscribeHt.trans h.subscribeHt⟩

section

variable {env} {b b' : DdBroker H} {sends : List Send}

/-! ### At the lower broker -/

omit [DecidableEq H] in
theorem mem_toHigher {m : List Frame} :
    m ∈ sends.filterMap Send.toHigher ↔ .dsock m ∈ sends := by
  rw [List.mem_filterMap]
  constructor
  · rintro ⟨x, hx, hm⟩
    cases x with
    | dsock m' =>
      cases hm
      exact hx
    | rsock | pubN | pubS | subN | subS => cases hm
  · exact fun h => ⟨_, h, rfl⟩

theorem step_register (h : step env b .register = .done b' sends) :
    b' = b ∧ ∀ x ∈ sends, x = .dsock (ddMsg .addbr [b.keys.hash.bytes]) := by
  simp only [step, sRegister] at h
  split at h <;> cases h <;> simp

theorem step_heartbeat (h : step env b .heartbeat = .done b' sends) :
    SameTables b b' ∧ (b'.state = .registered → b.state = .registered) ∧
      sends = [.dsock (ddMsg .ping [b.keys.cookie.1])] := by
  simp only [step, sHeartbeat] at h
  split at h
  · cases h
    exact ⟨⟨rfl, rfl, rfl, rfl, rfl, rfl, rfl, rfl, rfl⟩, (by cases ·), rfl⟩
  · cases h
    exact ⟨⟨rfl, rfl, rfl, rfl, rfl, rfl, rfl, rfl, rfl⟩, id, rfl⟩

/-- A challenge is answered. -/
theorem step_chall {body : List Frame}
    (h : step env b (.dealer (ddMsg .chall body)) = .done b' sends) :
    SameTables b b' ∧ b'.state = b.state ∧ ∃ cook, sends =
      [.dsock (ddMsg .challok [cook, b.keys.hash.bytes, CStr.ascii "broker"])] := by
  rw [step_dealer (dealerCmd_ddMsg _ _)] at h
  simp only [onDealerCmd, sCbChall] at h
  split at h
  · cases h
  · split at h
    · cases h
    · split at h
      · cases h
      · cases h
        exact ⟨⟨rfl, rfl, rfl, rfl, rfl, rfl, rfl, rfl, rfl⟩, rfl, _, rfl⟩

/-- **A registered broker announces its clients.** -/
theorem step_regok {body : List Frame}
    (h : step env b (.dealer (ddMsg .regok body)) = .done b' sends) :
    SameTables b b' ∧ sends = (announced b).map fun p => .dsock (announce b p) := by
  rw [step_dealer (dealerCmd_ddMsg _ _)] at h
  cases h
  refine ⟨⟨rfl, rfl, rfl, rfl, rfl, rfl, rfl, rfl, rfl⟩, ?_⟩
  rw [announced, List.map_append, List.map_map, List.map_map]
  simp only [addCliUp, if_true, List.map_eq_flatMap]
  rfl

theorem step_pong (h : step env b (.dealer (ddMsg .pong [])) = .done b' sends) :
    SameTables b b' ∧ b'.state = b.state ∧ sends = [] := by
  rw [step_dealer (dealerCmd_ddMsg _ _)] at h
  cases h
  exact ⟨⟨rfl, rfl, rfl, rfl, rfl, rfl, rfl, rfl, rfl⟩, rfl, rfl⟩

/-! ### At the higher broker -/

variable {s : Frame}

/-- An `ADDBR` is challenged. -/
theorem step_addbr {hash : Frame}
    (h : step env b (.router (s :: ddMsg .addbr [hash])) = .done b' sends) :
    SameTables b b' ∧ ∀ x ∈ sends, ∃ body, x = .rsock s (ddMsg .chall body) := by
  rw [step_router (routerCmd_ddMsg _ _ _)] at h
  simp only [onRouterCmd, sCbAddbr, zmsgPopstr] at h
  split at h <;> cases h
  · exact ⟨.refl _, by simp⟩
  · exact ⟨⟨rfl, rfl, rfl, rfl, rfl, rfl, rfl, rfl, rfl⟩, by simp⟩

/-- A `PING` is answered, or not. -/
theorem step_ping {cookie : Frame}
    (h : step env b (.router (s :: ddMsg .ping [cookie])) = .done b' sends) :
    SameTables b b' ∧ ∀ x ∈ sends, x = .rsock s (ddMsg .pong []) := by
  rw [step_router (routerCmd_ddMsg _ _ _)] at h
  simp only [onRouterCmd, sCbPing] at h
  split at h
  · cases h
  · cases h
    exact ⟨sameTables_touch _ _, by simp⟩
  · split at h
    · cases h
    · split at h
      · cases h
      · cases h
        exact ⟨sameTables_touchBroker _ _, by simp⟩
      · cases h
        exact ⟨.refl _, by simp⟩

/-- **A broker that knows the cookie is entered**, once. -/
theorem step_challok {cook name : Frame}
    (h : step env b (.router (s :: ddMsg .challok [cook, b.keys.hash.bytes, name])) =
      .done b' sends) :
    (b' = b ∧ sends = []) ∨ (b' = hashtableInsertLocalBroker env b s b.keys.cookie ∧
      ∃ body, sends = [.rsock s (ddMsg .regok body)]) := by
  rw [step_router (routerCmd_ddMsg _ _ _)] at h
  simp only [onRouterCmd, sCbChallok, CStr.ofBytes_bytes, if_true] at h
  split at h
  · cases h
  · split at h
    · cases h
      exact Or.inl ⟨rfl, rfl⟩
    · next hcookie =>
      rw [← not_not.mp hcookie] at h
      split at h <;> cases h
      · exact Or.inl ⟨rfl, rfl⟩
      · exact Or.inr ⟨rfl, _, rfl⟩

/-- **An announcement** of an unknown broker is dropped, that of a name that is taken is refused. -/
theorem step_adddcl {cookie : Cookie} {name : CStr} {dist : UInt32}
    (hfree : hashtableHasRevLocalNode env b name = none)
    (h : step env b (.router (s :: ddMsg .adddcl [cookie.1, name.bytes, le32 dist])) =
      .done b' sends) :
    (hashtableHasLocalBroker env b s cookie = some none ∧ b' = b ∧ sends = []) ∨
    ((hashtableHasDistNode env b name).isSome ∧ b' = b ∧ sends = remoteRegFailed s name) ∨
    (hashtableHasDistNode env b name = none ∧ ∃ dist,
      b' = hashtableInsertDistNode env b name s dist ∧ sends = addCliUp b name dist) := by
  rw [step_router (routerCmd_ddMsg _ _ _)] at h
  simp only [onRouterCmd, sCbAdddcl, readCookie_cookie, zmsgPopstr, zmsgPop, CStr.ofBytes_bytes,
    hfree, Option.isSome_none, Bool.false_eq_true, if_false] at h
  split at h
  · cases h
  · next hunknown =>
    cases h
    exact Or.inl ⟨hunknown, rfl, rfl⟩
  · split at h
    · next htaken =>
      cases h
      exact Or.inr (Or.inl ⟨htaken, rfl, rfl⟩)
    · next hnew =>
      cases h
      exact Or.inr (Or.inr ⟨Option.not_isSome_iff_eq_none.mp hnew, _, rfl, rfl⟩)

/-! ### The check of the brokers -/

/-- What stays at the higher broker for a socket. -/
structure KeepsSocket (s : Frame) (b b' : DdBroker H) : Prop where
  brokers : ∀ br ∈ b.lclBrHt.nodes, br.sockid = s → br ∈ b'.lclBrHt.nodes
  clients : ∀ d ∈ b.distCliHt.nodes, d.broker = s → d ∈ b'.distCliHt.nodes

omit [DecidableEq H] in
theorem SameTables.keepsSocket (h : SameTables b b') : KeepsSocket s b b' :=
  ⟨fun _ hb _ => h.lclBrHt ▸ hb, fun _ hd _ => h.distCliHt ▸ hd⟩

omit [DecidableEq H] in
/-- **The check keeps a socket that is not silent.** -/
theorem checkBrokers_keepsSocket {l : List LocalBroker} (hnd : l.Nodup)
    (hage : ∀ br ∈ l, br.sockid = s → b.brTimeout br < 3)
    (h : checkBrokers l b = .done b' sends) : KeepsSocket s b b' := by
  induction l generalizing b sends with
  | nil =>
    cases h
    exact (SameTables.refl _).keepsSocket
  | cons np rest ih =>
    obtain ⟨hnp, hnd⟩ := List.nodup_cons.mp hnd
    rw [checkBrokers] at h
    split at h
    · -- the counter of one broker moves, the others are as they were
      obtain ⟨hb, hd⟩ := ih hnd (fun br hbr hs => by
        have hne : br ≠ np := fun h => hnp (h ▸ hbr)
        simpa [hne] using hage br (List.mem_cons_of_mem _ hbr) hs) h
      exact ⟨hb, hd⟩
    · next hold =>
      have hne : np.sockid ≠ s := fun hs => hold (hage np List.mem_cons_self hs)
      obtain ⟨b₁, s₁, s₂, h₁, h₂, -⟩ := Outcome.andThen_eq_done.mp h
      cases h₁
      obtain ⟨hb, hd⟩ := ih hnd (by exact fun br hbr => hage br (List.mem_cons_of_mem _ hbr)) h₂
      refine ⟨fun br hbr hs => hb br ?_ hs, fun d hdm hs => hd d ?_ hs⟩
      · obtain ⟨e, he, rfl⟩ := List.mem_map.mp hbr
        refine List.mem_map_of_mem (List.mem_filter.mpr ⟨he, ?_⟩)
        exact decide_eq_true fun h => hne (h ▸ hs)
      · obtain ⟨e, he, rfl⟩ := List.mem_map.mp hdm
        refine List.mem_map_of_mem (List.mem_filter.mpr ⟨he, ?_⟩)
        exact decide_eq_true fun h => hne (h.symm.trans hs)

omit [DecidableEq H] in
/-- The check sends nothing down. -/
theorem checkBrokers_sends {l : List LocalBroker} (h : checkBrokers l b = .done b' sends) :
    sends.filterMap (Send.toSocket s) = [] := by
  induction l generalizing b sends with
  | nil =>
    cases h
    rfl
  | cons np rest ih =>
    rw [checkBrokers] at h
    split at h
    · exact ih h
    · obtain ⟨b₁, s₁, s₂, h₁, h₂, rfl⟩ := Outcome.andThen_eq_done.mp h
      cases h₁
      rw [List.filterMap_append, ih h₂, List.append_nil, List.filterMap_eq_nil_iff]
      intro x hx
      obtain ⟨mp, -, hx⟩ := List.mem_flatMap.mp hx
      unfold delCliUp at hx
      split at hx
      · rw [List.mem_singleton.mp hx]
        rfl
      · cases hx

end

/-! ## The invariant -/

namespace Uplink

variable {env} {b : DdBroker H} {u u' : Uplink H}

/-- **The invariant** of a lower broker that was `b`: it keeps its tables; while it is linked the
higher broker knows its socket, and while it is registered every client is announced or found
there. -/
structure Ok (env : Env H) (b : DdBroker H) (u : Uplink H) : Prop where
  same : SameTables b u.lower
  tables : TablesOk env u.higher
  hash : u.higher.keys.hash = b.keys.hash
  cookie : u.higher.keys.cookie = b.keys.cookie
  free : ∀ p ∈ announced b, hashtableHasRevLocalNode env u.higher p.1 = none
  up : ∀ p ∈ u.up, Upward b p.2
  down : ∀ m ∈ u.down, Downward m
  known : u.linked → ⟨u.sockid, b.keys.cookie⟩ ∈ u.higher.lclBrHt.nodes
  told : u.lower.state = .registered → ∀ p ∈ announced b, (u.sockid, announce b p) ∈ u.up ∨
    ∃ d ∈ u.higher.distCliHt.nodes, d.name = p.1 ∧ d.broker = u.sockid

omit [DecidableEq H] in
theorem linked_iff : u.linked ↔ u.lower.state = .registered ∨ ∃ m ∈ u.down, isRegok m := by
  simp [linked]

/-- What is taken out of a list leaves the others. -/
theorem mem_eraseIdx_of_ne {α : Type} {l : List α} {i : Nat} {a x : α} (ha : l[i]? = some a)
    (hx : x ∈ l) (hne : x ≠ a) : x ∈ l.eraseIdx i := by
  obtain ⟨j, hj⟩ := List.getElem?_of_mem hx
  refine List.mem_eraseIdx_iff_getElem?.mpr ⟨j, fun h => hne ?_, hj⟩
  rw [h, ha, Option.some.injEq] at hj
  exact hj.symm

omit [DecidableEq H] in
/-- **The lower broker moves.**  It may become registered only over a known socket, and then it
sends its announcements. -/
theorem Ok.moveLower {l : DdBroker H} {sends : List Send} {down : List (List Frame)}
    [DecidableEq H] (h : u.Ok env b) (hsame : SameTables u.lower l)
    (hup : ∀ m, .dsock m ∈ sends → Upward b m) (hdown : ∀ m ∈ down, m ∈ u.down)
    (hreg : l.state = .registered → u.lower.state = .registered ∨
      u.linked ∧ ∀ p ∈ announced b, .dsock (announce b p) ∈ sends) :
    Ok env b { u with
      lower := l
      up := u.up ++ (sends.filterMap Send.toHigher).map fun m => (u.sockid, m)
      down := down } := by
  refine { h with
    same := h.same.trans hsame, up := fun p hp => ?_, down := fun m hm => h.down m (hdown m hm)
    known := fun hl => h.known ?_, told := fun hl p hp => ?_ }
  · obtain hp | hp := List.mem_append.mp hp
    · exact h.up p hp
    · obtain ⟨m, hm, rfl⟩ := List.mem_map.mp hp
      exact hup m (mem_toHigher.mp hm)
  · obtain hl | ⟨m, hm, hok⟩ := linked_iff.mp hl
    · exact (hreg hl).elim (fun h => linked_iff.mpr (Or.inl h)) And.left
    · exact linked_iff.mpr (Or.inr ⟨m, hdown m hm, hok⟩)
  · obtain hold | ⟨-, hall⟩ := hreg hl
    · exact (h.told hold p hp).imp_left (List.mem_append_left _)
    · exact Or.inl (List.mem_append_right _
        (List.mem_map.mpr ⟨_, mem_toHigher.mpr (hall p hp), rfl⟩))

/-- **The higher broker moves.**  While the lower one is linked, what there is for its socket stays,
and the announcements that are taken off the way are found. -/
theorem Ok.moveHigher {hi : DdBroker H} {up : List (Frame × List Frame)} {down : List (List Frame)}
    (h : u.Ok env b) (hok : TablesOk env hi) (hkeys : hi.keys = u.higher.keys)
    (hrev : hi.revLclCliHt = u.higher.revLclCliHt)
    (hkeep : u.linked → KeepsSocket u.sockid u.higher hi) (hup : ∀ p ∈ up, p ∈ u.up)
    (hdown : ∀ m ∈ down, Downward m ∧
      (isRegok m → ⟨u.sockid, b.keys.cookie⟩ ∈ hi.lclBrHt.nodes))
    (htold : u.lower.state = .registered → ∀ p ∈ announced b, (u.sockid, announce b p) ∈ u.up →
      (u.sockid, announce b p) ∈ up ∨
        ∃ d ∈ hi.distCliHt.nodes, d.name = p.1 ∧ d.broker = u.sockid) :
    Ok env b { u with higher := hi, up := up, down := u.down ++ down } := by
  refine { h with
    tables := hok, hash := hkeys ▸ h.hash, cookie := hkeys ▸ h.cookie, free := fun p hp => ?_
    up := fun p hp => h.up p (hup p hp), down := fun m hm => ?_, known := fun hl => ?_
    told := fun hl p hp => ?_ }
  · rw [← h.free p hp, hashtableHasRevLocalNode, hashtableHasRevLocalNode, hrev]
  · exact (List.mem_append.mp hm).elim (h.down m) fun hm => (hdown m hm).1
  · have hold : u.linked → _ := fun hl => (hkeep hl).brokers _ (h.known hl) rfl
    obtain hl | ⟨m, hm, hm'⟩ := linked_iff.mp hl
    · exact hold (linked_iff.mpr (Or.inl hl))
    · obtain hm | hm := List.mem_append.mp hm
      · exact hold (linked_iff.mpr (Or.inr ⟨m, hm, hm'⟩))
      · exact (hdown m hm).2 hm'
  · obtain hin | ⟨d, hd, hname, hbroker⟩ := h.told hl p hp
    · exact htold hl p hp hin
    · exact Or.inr ⟨d, (hkeep (linked_iff.mpr (Or.inl hl))).clients d hd hbroker, hname, hbroker⟩

/-! ## Every step -/

omit [DecidableEq H] in
theorem mem_toSocket {s : Frame} {sends : List Send} {m : List Frame} :
    m ∈ sends.filterMap (Send.toSocket s) ↔ .rsock s m ∈ sends := by
  rw [List.mem_filterMap]
  constructor
  · rintro ⟨x, hx, hm⟩
    cases x with
    | rsock dest m' =>
      simp only [Send.toSocket, Option.ite_none_right_eq_some, Option.some.injEq] at hm
      obtain ⟨rfl, rfl⟩ := hm
      exact hx
    | dsock | pubN | pubS | subN | subS => cases hm
  · exact fun h => ⟨_, h, if_pos rfl⟩

/-- A message has one command and one body. -/
theorem ddMsg_inj {c c' : Cmd} {body body' : List Frame} (h : ddMsg c body = ddMsg c' body') :
    c = c' ∧ body = body' := by
  have h' := congrArg dealerCmd h
  rwa [dealerCmd_ddMsg, dealerCmd_ddMsg, Option.some.injEq, Prod.mk.injEq] at h'

theorem isRegok_ddMsg {c : Cmd} {body : List Frame} : isRegok (ddMsg c body) ↔ c = .regok := by
  simp [isRegok]

theorem of_lowerActs {e : Event} (h : u.lowerActs env e = some u') :
    ∃ l sends, step env u.lower e = .done l sends ∧ u' = { u with
      lower := l, up := u.up ++ (sends.filterMap Send.toHigher).map fun m => (u.sockid, m) } := by
  unfold lowerActs at h
  split at h
  · split at h
    · next hs =>
      cases h
      exact ⟨_, _, hs, rfl⟩
    · cases h
  · cases h

theorem of_higherActs {e : Event} (h : u.higherActs env e = some u') :
    ∃ hi sends, step env u.higher e = .done hi sends ∧ u' = { u with
      higher := hi, down := u.down ++ sends.filterMap (Send.toSocket u.sockid) } := by
  unfold higherActs at h
  split at h
  · next hs =>
    cases h
    exact ⟨_, _, hs, rfl⟩
  · cases h

omit [DecidableEq H] in
/-- A new socket. -/
theorem Ok.reopen [DecidableEq H] (h : u.Ok env b) (hstate : u.lower.state ≠ .registered)
    (sockid : Frame) : Ok env b { u with sockid := sockid, down := [] } :=
  { h with
    down := fun _ hm => absurd hm List.not_mem_nil
    known := fun hl => absurd hl (by simp [linked, hstate])
    told := fun hl => absurd hl hstate }

theorem Ok.registerTimer (h : u.Ok env b) (hact : u.lowerActs env .register = some u') :
    u'.Ok env b := by
  obtain ⟨l, sends, hs, rfl⟩ := of_lowerActs hact
  obtain ⟨rfl, hsends⟩ := step_register hs
  refine h.moveLower (.refl _) (fun m hm => ?_) (fun _ => id) Or.inl
  cases hsends _ hm
  rw [h.same.keys]
  exact .addbr

/-- **The registration timer.** -/
theorem Ok.register (h : u.Ok env b) {sockid : Frame}
    (hact : u.act env (.register sockid) = some u') : u'.Ok env b := by
  simp only [act] at hact
  split at hact
  · exact h.registerTimer hact
  · next hstate =>
    split at hact
    · exact (h.reopen hstate sockid).registerTimer hact
    · cases hact

/-- **The heartbeat.** -/
theorem Ok.heartbeat (h : u.Ok env b) (hact : u.act env .heartbeat = some u') : u'.Ok env b := by
  change u.lowerActs env .heartbeat = some u' at hact
  obtain ⟨l, sends, hs, rfl⟩ := of_lowerActs hact
  obtain ⟨hsame, hstate, rfl⟩ := step_heartbeat hs
  refine h.moveLower hsame (fun m hm => ?_) (fun _ => id) fun hl => Or.inl (hstate hl)
  cases List.mem_singleton.mp hm
  rw [h.same.keys]
  exact .ping

/-- **A message arrives at the lower broker.** -/
theorem Ok.toLower (h : u.Ok env b) (hact : u.act env .toLower = some u') : u'.Ok env b := by
  simp only [act] at hact
  split at hact
  · cases hact
  · next m down hdown =>
    obtain ⟨l, sends, hs, rfl⟩ := of_lowerActs hact
    have hrest : ∀ m ∈ down, m ∈ u.down := fun _ hm => hdown ▸ List.mem_cons_of_mem _ hm
    have hm := h.down m (hdown ▸ List.mem_cons_self)
    cases hm with
    | chall body =>
      obtain ⟨hsame, hstate, cook, rfl⟩ := step_chall hs
      refine h.moveLower hsame (fun m hm => ?_) hrest fun hl => Or.inl (hstate ▸ hl)
      cases List.mem_singleton.mp hm
      rw [h.same.keys]
      exact .challok cook
    | regok body =>
      have hlinked : u.linked := linked_iff.mpr
        (Or.inr ⟨_, hdown ▸ List.mem_cons_self, isRegok_ddMsg.mpr rfl⟩)
      obtain ⟨hsame, rfl⟩ := step_regok hs
      rw [h.same.announced, h.same.announce]
      refine h.moveLower hsame (fun m hm => ?_) hrest fun _ =>
        Or.inr ⟨hlinked, fun p hp => List.mem_map_of_mem hp⟩
      obtain ⟨p, hp, heq⟩ := List.mem_map.mp hm
      cases heq
      exact .adddcl hp
    | pong =>
      obtain ⟨hsame, hstate, rfl⟩ := step_pong hs
      exact h.moveLower hsame (fun _ hm => absurd hm List.not_mem_nil) hrest
        fun hl => Or.inl (hstate ▸ hl)

/-- **A `PONG` is lost.** -/
theorem Ok.losePong (h : u.Ok env b) {i : Nat} (hact : u.act env (.losePong i) = some u') :
    u'.Ok env b := by
  simp only [act] at hact
  split at hact
  · cases hact
    have h' : Ok env b { u with up := u.up ++ [], down := u.down.eraseIdx i } :=
      h.moveLower (.refl _) (fun _ hm => absurd hm List.not_mem_nil)
        (fun _ hm => List.mem_of_mem_eraseIdx hm) Or.inl
    rwa [List.append_nil] at h'
  · cases hact

/-- **A message is lost on its way up.** -/
theorem Ok.lose (h : u.Ok env b) {i : Nat} (hact : u.act env (.lose i) = some u') :
    u'.Ok env b := by
  simp only [act] at hact
  split at hact
  · cases hact
  · next source m hi =>
    split at hact
    · next hlost =>
      cases hact
      suffices h' : Ok env b { u with up := u.up.eraseIdx i, down := u.down ++ [] } by
        rwa [List.append_nil] at h'
      refine h.moveHigher h.tables rfl rfl (fun _ => (SameTables.refl u.higher).keepsSocket)
        (fun _ hp => List.mem_of_mem_eraseIdx hp) (fun _ hm => absurd hm List.not_mem_nil)
        fun _ p hp hin => Or.inl (mem_eraseIdx_of_ne hi hin fun heq => ?_)
      obtain ⟨rfl, rfl⟩ := Prod.mk.inj heq
      obtain hne | hping := hlost
      · exact hne rfl
      · cases (ddMsg_inj hping).1
    · cases hact

omit [DecidableEq H] in
/-- Another message of the open socket is taken off the way. -/
theorem stays_of_ne {i : Nat} {source : Frame} {m : List Frame}
    (hi : u.up[i]? = some (source, m)) {p : CStr × UInt32} (hin : (u.sockid, announce b p) ∈ u.up)
    (hne : source = u.sockid → announce b p ≠ m) :
    (u.sockid, announce b p) ∈ u.up.eraseIdx i :=
  mem_eraseIdx_of_ne hi hin fun heq => by
    obtain ⟨hs, hm⟩ := Prod.mk.inj heq
    exact hne hs.symm hm

/-- **An announcement arrives.**  That of the open socket finds its name free. -/
theorem Ok.announcement (hinj : Function.Injective env.xxh32) (h : u.Ok env b) {i : Nat}
    {source : Frame} {p : CStr × UInt32} (hp : p ∈ announced b)
    (hi : u.up[i]? = some (source, announce b p))
    (hcalm : source = u.sockid → hashtableHasDistNode env u.higher p.1 = none)
    {hi' : DdBroker H} {sends : List Send}
    (hs : step env u.higher (.router (source :: announce b p)) = .done hi' sends) :
    Ok env b { u with
      higher := hi'
      up := u.up.eraseIdx i
      down := u.down ++ sends.filterMap (Send.toSocket u.sockid) } := by
  have hok := h.tables.step hinj hs
  have hup : ∀ q ∈ u.up.eraseIdx i, q ∈ u.up := fun _ => List.mem_of_mem_eraseIdx
  obtain ⟨hunknown, rfl, rfl⟩ | ⟨htaken, rfl, rfl⟩ | ⟨-, dist, rfl, rfl⟩ :=
    step_adddcl (h.free p hp) hs
  · -- a registered lower broker is known under the open socket, so this is an old one
    refine h.moveHigher hok rfl rfl (fun _ => (SameTables.refl u.higher).keepsSocket) hup
      (fun _ hm => absurd hm List.not_mem_nil) fun hreg q _ hin =>
      Or.inl (stays_of_ne hi hin fun hsource => ?_)
    have hknown := h.known (linked_iff.mpr (Or.inl hreg))
    rw [h.tables.hasBroker hinj, Option.some.injEq, List.find?_eq_none] at hunknown
    exact absurd (by simp [LocalBroker.authKey, hsource]) (hunknown _ hknown)
  · -- refused, but not over the open socket
    have hold : source ≠ u.sockid := fun hsource => by
      rw [hcalm hsource] at htaken
      cases htaken
    refine h.moveHigher hok rfl rfl (fun _ => (SameTables.refl u.higher).keepsSocket) hup
      (fun m hm => ?_) fun _ q _ hin => Or.inl (stays_of_ne hi hin fun hsource =>
        absurd hsource hold)
    cases List.mem_singleton.mp (mem_toSocket.mp hm)
    exact absurd rfl hold
  · refine h.moveHigher hok rfl rfl (fun _ => ⟨fun _ hb _ => hb, fun d hd _ => ?_⟩) hup
      (fun m hm => ?_) fun _ q _ hin => ?_
    · exact (Lfht.nodes_add _ _ _).symm ▸ List.mem_append_left _ hd
    · obtain ⟨x, hx, hm⟩ := List.mem_filterMap.mp hm
      unfold addCliUp at hx
      split at hx
      · rw [List.mem_singleton.mp hx] at hm
        cases hm
      · cases hx
    · by_cases hq : source = u.sockid ∧ q.1 = p.1
      · refine Or.inr ⟨⟨p.1, source, dist⟩, ?_, hq.2.symm, hq.1⟩
        exact (Lfht.nodes_add _ _ _).symm ▸ List.mem_append_right _ (List.mem_singleton_self _)
      · refine Or.inl (stays_of_ne hi hin fun hsource heq => hq ⟨hsource, ?_⟩)
        have hbody := (ddMsg_inj heq).2
        rw [List.cons.injEq, List.cons.injEq] at hbody
        exact CStr.ext hbody.2.1

/-- **A message arrives at the higher broker.** -/
theorem Ok.toHigher (hinj : Function.Injective env.xxh32) (h : u.Ok env b) {i : Nat}
    (hcalm : u.calm env (.toHigher i)) (hact : u.act env (.toHigher i) = some u') :
    u'.Ok env b := by
  simp only [act] at hact
  simp only [calm] at hcalm
  split at hact
  · cases hact
  · next source m hi =>
    rw [hi] at hcalm
    split at hact
    · cases hact
    · obtain ⟨hi', sends, hs, rfl⟩ := of_higherActs hact
      have hok := h.tables.step hinj hs
      have hup : ∀ q ∈ u.up.eraseIdx i, q ∈ u.up := fun _ => List.mem_of_mem_eraseIdx
      have hm : Upward b m := h.up _ (List.mem_of_getElem? hi)
      cases hm with
      | addbr =>
        obtain ⟨hsame, hsends⟩ := step_addbr hs
        refine h.moveHigher hok hsame.keys hsame.revLclCliHt (fun _ => hsame.keepsSocket) hup
          (fun m hm => ?_) fun _ q _ hin => Or.inl (stays_of_ne hi hin fun _ heq => ?_)
        · obtain ⟨body, heq⟩ := hsends _ (mem_toSocket.mp hm)
          cases heq
          exact ⟨.chall body, fun hr => by cases isRegok_ddMsg.mp hr⟩
        · cases (ddMsg_inj heq).1
      | ping =>
        obtain ⟨hsame, hsends⟩ := step_ping hs
        refine h.moveHigher hok hsame.keys hsame.revLclCliHt (fun _ => hsame.keepsSocket) hup
          (fun m hm => ?_) fun _ q _ hin => Or.inl (stays_of_ne hi hin fun _ heq => ?_)
        · cases hsends _ (mem_toSocket.mp hm)
          exact ⟨.pong, fun hr => by cases isRegok_ddMsg.mp hr⟩
        · cases (ddMsg_inj heq).1
      | challok cook =>
        have hstays : ∀ q, (u.sockid, announce b q) ∈ u.up →
            (u.sockid, announce b q) ∈ u.up.eraseIdx i :=
          fun q hin => stays_of_ne hi hin fun _ heq => by cases (ddMsg_inj heq).1
        rw [← h.hash] at hs
        obtain ⟨rfl, rfl⟩ | ⟨rfl, body, rfl⟩ := step_challok hs
        · exact h.moveHigher hok rfl rfl (fun _ => (SameTables.refl u.higher).keepsSocket) hup
            (fun _ hm => absurd hm List.not_mem_nil) fun _ q _ hin => Or.inl (hstays q hin)
        · refine h.moveHigher hok rfl rfl (fun _ => ⟨fun br hbr _ => ?_, fun _ hd _ => hd⟩) hup
            (fun m hm => ?_) fun _ q _ hin => Or.inl (hstays q hin)
          · exact (Lfht.nodes_add _ _ _).symm ▸ List.mem_append_left _ hbr
          · cases List.mem_singleton.mp (mem_toSocket.mp hm)
            refine ⟨.regok body, fun _ => ?_⟩
            rw [← h.cookie]
            exact (Lfht.nodes_add _ _ _).symm ▸ List.mem_append_right _ (List.mem_singleton_self _)
      | @adddcl p hp =>
        refine h.announcement hinj hp hi (fun hsource => ?_) hs
        simpa [hsource, taken, announce] using hcalm

/-- **The higher broker checks its brokers.** -/
theorem Ok.checkBrTimeout (hinj : Function.Injective env.xxh32) (h : u.Ok env b)
    (hcalm : u.calm env .checkBrTimeout) (hact : u.act env .checkBrTimeout = some u') :
    u'.Ok env b := by
  change u.higherActs env .checkBrTimeout = some u' at hact
  obtain ⟨hi, sends, hs, rfl⟩ := of_higherActs hact
  have hcheck : checkBrokers u.higher.lclBrHt.nodes u.higher = .done hi sends := hs
  refine h.moveHigher (h.tables.step hinj hs) (step_frame hs).keys ?_ (fun hl => ?_) (fun _ => id)
    (fun m hm => ?_) fun _ _ _ => Or.inl
  · exact checkBrokers_induction (P := fun b => b.revLclCliHt = u.higher.revLclCliHt)
      (fun _ _ h => h) (fun _ _ h => h) rfl hcheck
  · refine checkBrokers_keepsSocket h.tables.brNodup.of_map (fun br hbr hsock => ?_) hcheck
    rw [calm, hl, Bool.not_true, Bool.false_or, List.all_eq_true] at hcalm
    simpa [hsock] using hcalm br hbr
  · rw [checkBrokers_sends hcheck] at hm
    exact absurd hm List.not_mem_nil

/-- **Every calm step keeps the invariant.** -/
theorem Ok.act (hinj : Function.Injective env.xxh32) (h : u.Ok env b) {e : UplinkEvent}
    (hcalm : u.calm env e) (hact : u.act env e = some u') : u'.Ok env b := by
  cases e with
  | register sockid => exact h.register hact
  | heartbeat => exact h.heartbeat hact
  | toLower => exact h.toLower hact
  | losePong i => exact h.losePong hact
  | toHigher i => exact h.toHigher hinj hcalm hact
  | lose i => exact h.lose hact
  | checkBrTimeout => exact h.checkBrTimeout hinj hcalm hact

/-- **A run of calm steps.** -/
theorem Ok.run (hinj : Function.Injective env.xxh32) (h : u.Ok env b) {es : List UplinkEvent}
    (hmeets : u.meets env (calm env) es) (hrun : u.run env es = some u') : u'.Ok env b := by
  induction es generalizing u with
  | nil =>
    cases hrun
    exact h
  | cons e es ih =>
    rw [Uplink.meets, Bool.and_eq_true] at hmeets
    obtain ⟨u₁, hact, hrun⟩ := Option.bind_eq_some_iff.mp hrun
    rw [hact, Option.all_some] at hmeets
    exact ih (h.act hinj hmeets.1 hact) hmeets.2 hrun

/-- What the invariant promises. -/
theorem Ok.keeps (hinj : Function.Injective env.xxh32) (h : u.Ok env b) : u.Keeps env b where
  clients := h.same.lclCliHt
  names := h.same.revLclCliHt
  distant := h.same.distCliHt
  mapped hreg hdone p hp := by
    obtain hin | ⟨d, hd, hname, hbroker⟩ := h.told hreg p hp
    · exact absurd hin (hdone p hp)
    · have hnd : (u.higher.distCliHt.nodes.map DistClient.name).Nodup :=
        List.Nodup.of_map CStr.bytes (by rw [List.map_map]; exact h.tables.distNodup)
      exact ⟨d, (h.tables.hasDist hinj p.1).trans
        ((Lfht.find?_key_eq_some hnd).mpr ⟨hd, hname⟩), hbroker⟩

end Uplink

variable {env}

/-- **A lower broker that registers again keeps its clients** — in every run of the two brokers in
which no announcement of the open socket meets an entry of its name, and the higher broker does not
give up on a socket the lower one is registered over. -/
theorem reregistration_keeps (hinj : Function.Injective env.xxh32) {cfg : Config}
    {lower higher : DdBroker H} (hlower : lower.state ≠ .registered)
    (hreach : Reachable env cfg higher) (hhash : higher.keys.hash = lower.keys.hash)
    (hcookie : higher.keys.cookie = lower.keys.cookie)
    (hfree : ∀ p ∈ announced lower, hashtableHasRevLocalNode env higher p.1 = none) {sockid : Frame}
    {es : List UplinkEvent} {u : Uplink H}
    (hmeets : (Uplink.start lower higher sockid).meets env (Uplink.calm env) es)
    (hrun : (Uplink.start lower higher sockid).run env es = some u) : u.Keeps env lower := by
  have hstart : (Uplink.start lower higher sockid).Ok env lower :=
    { same := .refl lower, tables := hreach.tablesOk hinj, hash := hhash, cookie := hcookie
      free := hfree, up := fun _ hp => absurd hp List.not_mem_nil
      down := fun _ hm => absurd hm List.not_mem_nil
      known := fun hl => absurd hl (by simp [Uplink.linked, Uplink.start, hlower])
      told := fun hl => absurd hl hlower }
  exact (hstart.run hinj hmeets hrun).keeps hinj

/-! ### Four heartbeats without an answer -/

/-- The lower broker: as in `demoConfig`, with a higher broker. -/
def belowConfig : Config := { demoConfig with dealer := true }

/-- The higher broker. -/
def aboveConfig : Config := { demoConfig with nonce := List.replicate 24 0 }

/-- The registration over a new socket, up to the announcement of the one client. -/
def handshake (sockid : Frame) : List UplinkEvent :=
  [.register sockid, .toHigher 0, .toLower, .toHigher 0, .toLower, .toHigher 0]

/-- Four heartbeats, and no `PONG` comes back. -/
def lapse : List UplinkEvent := (List.replicate 4 [.heartbeat, .toHigher 0, .losePong 0]).flatten

/-- The higher broker forgets the old socket, then the lower one registers again. -/
def returnInTime : List UplinkEvent :=
  handshake [1] ++ lapse ++ List.replicate 4 .checkBrTimeout ++ handshake [2]

/-- The lower broker is back before the old socket is forgotten. -/
def returnTooEarly : List UplinkEvent := handshake [1] ++ lapse ++ handshake [2] ++ [.toLower]

/-- The lower broker has the client `a.x`. -/
theorem below_start : (runEvents plainEnv (ddBrokerNew _ belowConfig) headRun).map (fun b =>
    (decide (b.state = .unreg), announced b)) = some (true, [(text "a.x", 0)]) := by
  decide

theorem below_keys : (runEvents plainEnv (ddBrokerNew _ belowConfig) headRun).map (fun b =>
    (b.keys.hash, b.keys.cookie)) = some (demoKeys.hash, demoKeys.cookie) := by
  decide

/-- The lower broker is not registered, and the higher one has no client of its names. -/
theorem below_spec : ∃ b, runEvents plainEnv (ddBrokerNew _ belowConfig) headRun = some b ∧
    b.state ≠ .registered ∧
    ((ddBrokerNew (List UInt8) aboveConfig).keys.hash = b.keys.hash ∧
      (ddBrokerNew (List UInt8) aboveConfig).keys.cookie = b.keys.cookie) ∧
    ∀ p ∈ announced b,
      hashtableHasRevLocalNode plainEnv (ddBrokerNew _ aboveConfig) p.1 = none := by
  obtain ⟨b, hb, hstart⟩ := Option.map_eq_some_iff.mp below_start
  obtain ⟨hstate, hann⟩ := Prod.mk.inj hstart
  have hkeys := below_keys
  rw [hb, Option.map_some, Option.some.injEq, Prod.mk.injEq] at hkeys
  refine ⟨b, hb, by rw [of_decide_eq_true hstate]; decide, ⟨hkeys.1.symm, hkeys.2.symm⟩, ?_⟩
  rw [hann]
  exact fun p hp => by rw [List.mem_singleton.mp hp]; rfl

theorem returnInTime_run : (runEvents plainEnv (ddBrokerNew _ belowConfig) headRun).map (fun b =>
    ((Uplink.start b (ddBrokerNew _ aboveConfig) [0]).meets plainEnv (Uplink.calm plainEnv)
        returnInTime,
      ((Uplink.start b (ddBrokerNew _ aboveConfig) [0]).run plainEnv returnInTime).map fun u =>
        (decide (u.lower.state = .registered), u.up.isEmpty))) =
          some (true, some (true, true)) := by
  decide

/-- A lower broker that comes back in time. -/
theorem reregistration_keeps_inTime : ∃ (lower : DdBroker (List UInt8)) (u : Uplink (List UInt8)),
    Reachable plainEnv belowConfig lower ∧
      (Uplink.start lower (ddBrokerNew _ aboveConfig) [0]).run plainEnv returnInTime = some u ∧
      u.lower.state = .registered ∧ u.up = [] ∧ u.Keeps plainEnv lower := by
  obtain ⟨b, hb, hstate, hkeys, hfree⟩ := below_spec
  have hfacts := returnInTime_run
  rw [hb, Option.map_some, Option.some.injEq, Prod.mk.injEq] at hfacts
  obtain ⟨u, hu, hend⟩ := Option.map_eq_some_iff.mp hfacts.2
  obtain ⟨hreg, hup⟩ := Prod.mk.inj hend
  exact ⟨b, u, ⟨_, .of_runEvents hb⟩, hu, of_decide_eq_true hreg, List.isEmpty_iff.mp hup,
    reregistration_keeps Function.injective_id hstate ⟨[], .init⟩ hkeys.1 hkeys.2 hfree hfacts.1 hu⟩

theorem returnTooEarly_run : (runEvents plainEnv (ddBrokerNew _ belowConfig) headRun).map (fun b =>
    (((Uplink.start b (ddBrokerNew _ aboveConfig) [0]).run plainEnv returnTooEarly).map fun u =>
      u.lower.lclCliHt.nodes.length, b.lclCliHt.nodes.length)) = some (some 0, 1) := by
  decide

/-- **A lower broker that registers again does not always keep its clients** — back before the old
socket is forgotten it is told to remove its client. -/
theorem not_reregistration_keeps : ¬ ∀ (H : Type) [DecidableEq H] (env : Env H),
    Function.Injective env.xxh32 → ∀ (cfg : Config) (lower higher : DdBroker H),
    lower.state ≠ .registered → Reachable env cfg higher →
    higher.keys.hash = lower.keys.hash → higher.keys.cookie = lower.keys.cookie →
    (∀ p ∈ announced lower, hashtableHasRevLocalNode env higher p.1 = none) →
    ∀ (sockid : Frame) (es : List UplinkEvent) (u : Uplink H),
    (Uplink.start lower higher sockid).run env es = some u → u.Keeps env lower := by
  intro hall
  obtain ⟨b, hb, hstate, hkeys, hfree⟩ := below_spec
  have hfacts := returnTooEarly_run
  rw [hb, Option.map_some, Option.some.injEq, Prod.mk.injEq] at hfacts
  obtain ⟨u, hu, hend⟩ := Option.map_eq_some_iff.mp hfacts.1
  have hkeeps := hall _ plainEnv Function.injective_id aboveConfig b (ddBrokerNew _ aboveConfig)
    hstate ⟨[], .init⟩ hkeys.1 hkeys.2 hfree [0] returnTooEarly u hu
  rw [hkeeps.clients, hfacts.2] at hend
  exact absurd hend (by decide)

end DoubleDecker
