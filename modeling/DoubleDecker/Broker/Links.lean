import DoubleDecker.Broker.Routing
import DoubleDecker.Broker.Subs

/-!
# Broker/Links — the state of the registration and the sockets

Only a `REGOK` and a missed heartbeat change whether a broker is registered, which timers run and
whether the publications of the higher broker are connected (`step_links`, `step_connectedN`).
-/

namespace DoubleDecker

variable {H : Type} [DecidableEq H] {env : Env H} {b b' : DdBroker H} {e : Event}
  {sends : List Send}

/-- **Two brokers with the same links** — the same registration, timers, sockets and nonce. -/
structure SameLinks {H : Type} (a b : DdBroker H) : Prop where
  state : b.state = a.state
  loop : b.loop = a.loop
  regLoop : b.regLoop = a.regLoop
  heartbeatLoop : b.heartbeatLoop = a.heartbeatLoop
  dsock : b.dsock = a.dsock
  connectedN : b.connectedN = a.connectedN
  pubSEndpoint : b.pubSEndpoint = a.pubSEndpoint
  subSEndpoint : b.subSEndpoint = a.subSEndpoint
  nonce : b.nonce = a.nonce

omit [DecidableEq H] in
theorem SameLinks.refl (a : DdBroker H) :
    SameLinks a a := ⟨rfl, rfl, rfl, rfl, rfl, rfl, rfl, rfl, rfl⟩

omit [DecidableEq H] in
theorem SameLinks.trans {a b c : DdBroker H} (h : SameLinks a b) (h' : SameLinks b c) :
    SameLinks a c :=
  ⟨h'.state.trans h.state, h'.loop.trans h.loop, h'.regLoop.trans h.regLoop,
    h'.heartbeatLoop.trans h.heartbeatLoop, h'.dsock.trans h.dsock,
      h'.connectedN.trans h.connectedN,
    h'.pubSEndpoint.trans h.pubSEndpoint, h'.subSEndpoint.trans h.subSEndpoint,
    h'.nonce.trans h.nonce⟩

omit [DecidableEq H] in
theorem sameLinks_touch (a : DdBroker H) (c : LocalClient) : SameLinks a (a.touch c) :=
  ⟨rfl, rfl, rfl, rfl, rfl, rfl, rfl, rfl, rfl⟩

omit [DecidableEq H] in
theorem sameLinks_touchBroker (a : DdBroker H) (c : LocalBroker) : SameLinks a (a.touchBroker c) :=
  ⟨rfl, rfl, rfl, rfl, rfl, rfl, rfl, rfl, rfl⟩

/-- The outcome, when it is a state, has the links of this broker. -/
def Outcome.KeepsLinks {H : Type} (o : Outcome H) (b : DdBroker H) : Prop :=
  ∀ b' sends, o = .done b' sends → SameLinks b b'

omit [DecidableEq H] in
theorem keepsLinks_fault (b : DdBroker H) (sends : List Send) :
    (Outcome.fault sends : Outcome H).KeepsLinks b := fun _ _ h => by cases h

omit [DecidableEq H] in
theorem keepsLinks_done (h : SameLinks b b') (sends : List Send) :
    (Outcome.done b' sends).KeepsLinks b := fun _ _ h' => by
  cases h'
  exact h

/-! ## The tables -/

theorem removeSubscriptions_links {s : Frame} {n : Nat}
    (h : removeSubscriptions env b s = some (b', n)) : SameLinks b b' := by
  obtain rfl | ⟨root, rfl⟩ := removeSubscriptions_eq h
  · exact .refl _
  · exact ⟨rfl, rfl, rfl, rfl, rfl, rfl, rfl, rfl, rfl⟩

theorem removeSubscription_links {s : Frame} {t : CStr} {n : Nat}
    (h : removeSubscription env b s t = some (b', n)) : SameLinks b b' := by
  obtain rfl | ⟨root, rfl⟩ := removeSubscription_eq h
  · exact .refl _
  · exact ⟨rfl, rfl, rfl, rfl, rfl, rfl, rfl, rfl, rfl⟩

theorem insertLocalClient_links {s : Frame} {ten : DdTenant} {name : CStr}
    (h : insertLocalClient env b s ten name = some (some b')) : SameLinks b b' := by
  obtain ⟨-, -, -, -, rfl⟩ := insertLocalClient_eq h
  exact ⟨rfl, rfl, rfl, rfl, rfl, rfl, rfl, rfl, rfl⟩

/-! ## The handlers -/

omit [DecidableEq H] in
theorem links_deliver (h : SameLinks b b') (ln : LocalClient) (srcpublic dstpublic : Bool)
    (src : CStr) (msg : List Frame) :
    (deliver b' ln srcpublic dstpublic src msg).KeepsLinks b := by
  unfold deliver
  split
  · exact keepsLinks_done h _
  · split
    · exact keepsLinks_fault _ _
    · exact keepsLinks_done h _

theorem links_carry (h : SameLinks b b') (srcpublic dstpublic : Bool) (src dst : CStr)
    (payload : List Frame) {nodst : Outcome H} (hnodst : nodst.KeepsLinks b) :
    (carry env b' srcpublic dstpublic src dst payload nodst).KeepsLinks b := by
  unfold carry
  split
  · exact links_deliver h _ _ _ _ _
  · split
    · exact keepsLinks_done h _
    · split
      · exact hnodst
      · exact keepsLinks_done h _

theorem links_unregCli (b : DdBroker H) (s cookie : Frame) :
    (sCbUnregCli env b s cookie).KeepsLinks b := by
  intro b' sends h
  obtain ⟨-, rfl, -⟩ | ⟨c, -, hr, -⟩ := sCbUnregCli_eq_done h
  · exact .refl _
  · obtain ⟨⟨b₁, n⟩, hb, rfl⟩ := Option.map_eq_some_iff.mp hr
    exact (removeSubscriptions_links hb).trans ⟨rfl, rfl, rfl, rfl, rfl, rfl, rfl, rfl, rfl⟩

variable (env) in
/-- The nonce an event encrypts a challenge with. -/
def takenNonce (b : DdBroker H) : Event → Option Frame
  | .router msg =>
    match routerCmd msg with
    | some (_, .addbr, hash :: _) =>
      if CStr.ofBytes hash = b.keys.hash then some (env.nonceIncrement b.nonce) else none
    | some (_, .addlcl, hash :: _) =>
      (b.keys.tenant (CStr.ofBytes hash)).map fun _ => env.nonceIncrement b.nonce
    | _ => none
  | _ => none

/-- **A challenge takes a fresh nonce**, and changes nothing else. -/
theorem step_challenge {msg rest : List Frame} {source : Frame} {cmd : Cmd}
    (hmsg : routerCmd msg = some (source, cmd, rest)) (hcmd : cmd = .addlcl ∨ cmd = .addbr)
    (h : step env b (.router msg) = .done b' sends) :
    b' = { b with nonce := (takenNonce env b (.router msg)).getD b.nonce } ∧
      ∀ n, takenNonce env b (.router msg) = some n → ∃ plain key more,
        sends = [.rsock source (ddMsg .chall ((n ++ env.boxEasyAfternm plain n key) :: more))] := by
  rw [step_router hmsg] at h
  obtain rfl | rfl := hcmd
  · have h : sCbAddlcl env b source rest = .done b' sends := by
      cases rest <;> exact h
    cases rest with
    | nil =>
      cases h
      simp [takenNonce, hmsg]
    | cons hash rest =>
      simp only [sCbAddlcl, zmsgPopstr] at h
      cases hten : b.keys.tenant (CStr.ofBytes hash) with
      | none =>
        rw [hten] at h
        cases h
        simp [takenNonce, hmsg, hten]
      | some ten =>
        rw [hten] at h
        cases h
        simp only [takenNonce, hmsg, hten, Option.map_some, Option.getD_some, Option.some.injEq,
          true_and, forall_eq']
        exact ⟨_, _, _, rfl⟩
  · have h : sCbAddbr env b source rest = .done b' sends := by
      cases rest <;> exact h
    cases rest with
    | nil => cases h
    | cons hash rest =>
      simp only [sCbAddbr, zmsgPopstr] at h
      by_cases hhash : CStr.ofBytes hash = b.keys.hash
      · rw [if_neg (not_not.mpr hhash)] at h
        cases h
        simp only [takenNonce, hmsg, hhash, if_true, Option.getD_some, Option.some.injEq, true_and,
          forall_eq']
        exact ⟨_, _, _, rfl⟩
      · rw [if_pos hhash] at h
        cases h
        simp [takenNonce, hmsg, hhash]

/-- **The commands of the router but for the two that challenge do not change the links.** -/
theorem links_router (b : DdBroker H) (source : Frame) {cmd : Cmd} (msg : List Frame)
    (hlcl : cmd ≠ .addlcl) (hbr : cmd ≠ .addbr) :
    (onRouterCmd env b source cmd msg).KeepsLinks b := by
  cases cmd with
  | addlcl => exact absurd rfl hlcl
  | addbr => exact absurd rfl hbr
  | sub =>
    cases msg with
    | nil => exact keepsLinks_done (.refl b) _
    | cons cookie msg =>
      show (sCbSub env b source cookie msg).KeepsLinks b
      unfold sCbSub
      split
      · exact keepsLinks_fault _ _
      · exact keepsLinks_done (.refl b) _
      · simp only [insertSubscription_touch]
        split
        · exact keepsLinks_fault _ _
        · cases hins : insertSubscription env b source _ with
          | none => exact keepsLinks_fault _ _
          | some p =>
            obtain ⟨ht, hp⟩ := insertSubscription_frame hins
            simp only [Option.map_some, hp]
            split
            · exact keepsLinks_fault _ _
            · exact keepsLinks_done (by constructor <;> rfl) _
  | unsub =>
    cases msg with
    | nil => exact keepsLinks_done (.refl b) _
    | cons cookie msg =>
      show (sCbUnsub env b source cookie msg).KeepsLinks b
      unfold sCbUnsub
      split
      · exact keepsLinks_fault _ _
      · exact keepsLinks_done (.refl b) _
      · simp only
        split
        · exact keepsLinks_fault _ _
        · split
          · exact keepsLinks_fault _ _
          · next hrem =>
            exact keepsLinks_done
              ((sameLinks_touch b _).trans (removeSubscription_links hrem)) _
  | send =>
    cases msg with
    | nil => exact keepsLinks_done (.refl b) _
    | cons cookie msg =>
      show (sCbSend env b source cookie msg).KeepsLinks b
      cases hln : hashtableHasLocalNode env b source cookie with
      | none =>
        simp only [sCbSend, hln]
        exact keepsLinks_fault _ _
      | some o =>
        cases o with
        | none =>
          simp only [sCbSend, hln]
          exact keepsLinks_done (.refl b) _
        | some ln =>
          cases msg with
          | nil =>
            simp only [sCbSend, hln, zmsgPopstr]
            exact keepsLinks_fault _ _
          | cons dest payload =>
            rw [sCbSend_eq hln]
            refine links_carry (sameLinks_touch b ln) _ _ _ _ _ ?_
            unfold sendNodst
            (repeat' split) <;> first
              | exact keepsLinks_fault _ _
              | exact keepsLinks_done (by constructor <;> rfl) _
  | forward =>
    cases msg with
    | nil => exact keepsLinks_done (.refl b) _
    | cons cookie msg =>
      show (sCbForwardRsock env b source cookie msg).KeepsLinks b
      unfold sCbForwardRsock
      split
      · exact keepsLinks_fault _ _
      · split
        · exact keepsLinks_fault _ _
        · exact keepsLinks_done (.refl b) _
        · simp only
          split
          · exact links_carry (sameLinks_touchBroker b _) _ _ _ _ _
              (keepsLinks_done (sameLinks_touchBroker b _) _)
          · exact keepsLinks_done (by constructor <;> rfl) _
  | ping =>
    cases msg with
    | nil => exact keepsLinks_done (.refl b) _
    | cons cookie msg =>
      show (sCbPing env b source cookie).KeepsLinks b
      unfold sCbPing
      (repeat' split) <;> first
        | exact keepsLinks_fault _ _
        | exact keepsLinks_done (by constructor <;> rfl) _
  | pub =>
    cases msg with
    | nil => exact keepsLinks_done (.refl b) _
    | cons cookie msg =>
      show (sCbPub env b source cookie msg).KeepsLinks b
      unfold sCbPub
      simp only
      (repeat' split) <;> first
        | exact keepsLinks_fault _ _
        | exact keepsLinks_done (by constructor <;> rfl) _
  | adddcl =>
    cases msg with
    | nil => exact keepsLinks_done (.refl b) _
    | cons cookie msg =>
      show (sCbAdddcl env b source cookie msg).KeepsLinks b
      unfold sCbAdddcl
      (repeat' split) <;> first
        | exact keepsLinks_fault _ _
        | exact keepsLinks_done (by constructor <;> rfl) _
  | unreg =>
    cases msg with
    | nil => exact keepsLinks_done (.refl b) _
    | cons cookie msg => exact links_unregCli b source cookie
  | unregdcli =>
    cases msg with
    | nil => exact keepsLinks_done (.refl b) _
    | cons cookie msg =>
      show (sCbUnregDistCli env b source cookie msg).KeepsLinks b
      unfold sCbUnregDistCli
      (repeat' split) <;> first
        | exact keepsLinks_fault _ _
        | exact keepsLinks_done (by constructor <;> rfl) _
  | challok =>
    show (sCbChallok env b source msg).KeepsLinks b
    unfold sCbChallok registerClient
    simp only
    (repeat' split) <;> first
      | exact keepsLinks_fault _ _
      | exact keepsLinks_done (insertLocalClient_links ‹_›) _
      | exact keepsLinks_done (by constructor <;> rfl) _
  | unregbr | data | error | regok | pong | chall | subok =>
    cases msg <;> exact keepsLinks_done (.refl b) _

/-- The messages from the higher broker but for `REGOK` do not change the links. -/
theorem links_dealer (b : DdBroker H) {cmd : Cmd} (msg : List Frame) (hcmd : cmd ≠ .regok) :
    (onDealerCmd env b cmd msg).KeepsLinks b := by
  cases cmd with
  | regok => exact absurd rfl hcmd
  | forward =>
    show (sCbForwardDsock env b msg).KeepsLinks b
    unfold sCbForwardDsock
    split
    · exact links_carry (.refl b) _ _ _ _ _ (keepsLinks_fault b _)
    · exact keepsLinks_done (.refl b) _
  | chall =>
    show (sCbChall env b msg).KeepsLinks b
    unfold sCbChall
    simp only
    (repeat' split) <;> first
      | exact keepsLinks_fault _ _
      | exact keepsLinks_done (by constructor <;> rfl) _
  | error =>
    show (sCbHighError env b msg).KeepsLinks b
    unfold sCbHighError
    simp only
    (repeat' split) <;> first
      | exact keepsLinks_fault _ _
      | exact keepsLinks_done (.refl b) _
      | exact keepsLinks_done
          ((removeSubscriptions_links ‹_›).trans (by constructor <;> rfl)) _
      | exact keepsLinks_done (by constructor <;> rfl) _
  | send | ping | addlcl | adddcl | addbr | unreg | unregdcli | unregbr | data | pong | challok
  | pub | sub | unsub | subok => exact keepsLinks_done (.refl b) _

omit [DecidableEq H] in
theorem links_pubRemotely (b : DdBroker H) (pubtopic name : CStr) (msg : List Frame) :
    (pubRemotely b pubtopic name msg).KeepsLinks b := by
  unfold pubRemotely
  simp only
  (repeat' split) <;> first
    | exact keepsLinks_fault _ _
    | exact keepsLinks_done (.refl b) _

omit [DecidableEq H] in
/-- The publications of other brokers do not change the links. -/
theorem links_pubs (b : DdBroker H) (msg : List Frame) :
    (sOnSubNMsg b msg).KeepsLinks b ∧ (sOnSubSMsg b msg).KeepsLinks b := by
  constructor
  · unfold sOnSubNMsg
    simp only
    split
    · exact keepsLinks_done (.refl b) _
    · split
      · intro b' sends h
        obtain ⟨b₁, s₁, s₂, h₁, h₂, -⟩ := Outcome.andThen_eq_done.mp h
        cases h₂
        exact links_pubRemotely b _ _ _ _ _ h₁
      · exact keepsLinks_fault _ _
  · unfold sOnSubSMsg
    simp only
    split
    · intro b' sends h
      obtain ⟨b₁, s₁, s₂, h₁, h₂, -⟩ := Outcome.andThen_eq_done.mp h
      have hlinks := links_pubRemotely b _ _ _ _ _ h₁
      split at h₂
      · cases h₂
      · split at h₂
        · cases h₂
        · cases h₂
          exact hlinks
    · exact keepsLinks_fault _ _

omit [DecidableEq H] in
/-- A command that asks for no challenge takes no nonce. -/
theorem takenNonce_of_cmd {msg rest : List Frame} {source : Frame} {cmd : Cmd}
    (hmsg : routerCmd msg = some (source, cmd, rest)) (hcmd : ¬ (cmd = .addlcl ∨ cmd = .addbr)) :
    takenNonce env b (.router msg) = none := by
  simp only [takenNonce, hmsg]
  split
  · next heq =>
    cases heq
    exact absurd (Or.inr rfl) hcmd
  · next heq =>
    cases heq
    exact absurd (Or.inl rfl) hcmd
  · rfl

/-- **Only a `REGOK` and a heartbeat change the links**, but for the nonce of a challenge. -/
theorem step_links (h : step env b e = .done b' sends)
    (hregok : ∀ msg rest, e = .dealer msg → dealerCmd msg ≠ some (.regok, rest))
    (hheart : e ≠ .heartbeat) :
    SameLinks { b with nonce := (takenNonce env b e).getD b.nonce } b' := by
  have hsame : SameLinks b b' → takenNonce env b e = none →
      SameLinks { b with nonce := (takenNonce env b e).getD b.nonce } b' := fun hsame hnone => by
    rw [hnone]
    exact hsame
  cases e with
  | router msg =>
    rcases sOnRouterMsg_eq env b msg with ⟨source, cmd, rest, hmsg, heq⟩ | ⟨hmsg, heq | ⟨_, heq, -⟩⟩
    · by_cases hcmd : cmd = .addlcl ∨ cmd = .addbr
      · rw [(step_challenge hmsg hcmd h).1]
        exact .refl _
      · refine hsame ?_ (takenNonce_of_cmd hmsg hcmd)
        rw [not_or] at hcmd
        exact links_router b source rest hcmd.1 hcmd.2 _ _ (heq.symm.trans h)
    · rw [show step env b (.router msg) = _ from heq] at h
      cases h
    · rw [show step env b (.router msg) = _ from heq] at h
      cases h
      exact hsame (.refl _) (by simp [takenNonce, hmsg])
  | dealer msg =>
    have htime : SameLinks b { b with timeout := 0 } :=
      ⟨rfl, rfl, rfl, rfl, rfl, rfl, rfl, rfl, rfl⟩
    rcases sOnDealerMsg_eq env b msg with ⟨cmd, rest, hm, heq⟩ | ⟨-, heq | heq⟩
    · have hcmd : cmd ≠ .regok := fun hc => hregok msg rest rfl (hc ▸ hm)
      exact hsame (htime.trans (links_dealer _ rest hcmd _ _ (heq.symm.trans h))) rfl
    · rw [show step env b (.dealer msg) = _ from heq] at h
      cases h
    · rw [show step env b (.dealer msg) = _ from heq] at h
      cases h
      exact hsame htime rfl
  | subN msg => exact hsame ((links_pubs b msg).1 _ _ h) rfl
  | subS msg => exact hsame ((links_pubs b msg).2 _ _ h) rfl
  | pubN msg =>
    rw [show step env b (.pubN msg) = sOnPubNMsg b msg from rfl, sOnPubNMsg] at h
    split at h
    · cases h
    · split at h
      · cases h
      · cases h
        exact hsame (.refl _) rfl
  | pubS msg =>
    rw [show step env b (.pubS msg) = sOnPubSMsg b msg from rfl, sOnPubSMsg] at h
    split at h
    · cases h
    · split at h
      · cases h
      · cases h
        exact hsame (.refl _) rfl
  | register =>
    rw [show step env b .register = sRegister b from rfl, sRegister] at h
    split at h <;> cases h <;> exact hsame (.refl _) rfl
  | heartbeat => exact absurd rfl hheart
  | checkCliTimeout =>
    refine hsame ?_ rfl
    exact checkClients_induction (P := SameLinks b)
      (fun _ _ hb => hb.trans ⟨rfl, rfl, rfl, rfl, rfl, rfl, rfl, rfl, rfl⟩)
      (fun b₁ np _ _ hb hu => hb.trans (links_unregCli b₁ np.sockid np.cookie.1 _ _ hu))
      (.refl b) h
  | checkBrTimeout =>
    refine hsame ?_ rfl
    exact checkBrokers_induction (P := SameLinks b)
      (fun _ _ hb => hb.trans ⟨rfl, rfl, rfl, rfl, rfl, rfl, rfl, rfl, rfl⟩)
      (fun _ _ hb => hb.trans ⟨rfl, rfl, rfl, rfl, rfl, rfl, rfl, rfl, rfl⟩) (.refl b) h

/-! ## The connection to the higher broker's publications -/

/-- A `REGOK` with the endpoints of the publications: `connect_pubsubN` is called. -/
def Event.endpoints : Event → Bool
  | .dealer msg =>
    match dealerCmd msg with
    | some (.regok, rest) => decide (rest.length = 3)
    | _ => false
  | _ => false

theorem endpoints_eq_true : e.endpoints = true ↔
    ∃ msg rest, e = .dealer msg ∧ dealerCmd msg = some (.regok, rest) ∧ rest.length = 3 := by
  unfold Event.endpoints
  split
  · next msg =>
    split
    · next rest hm => simp [hm]
    · next hm =>
      refine ⟨fun h => absurd h Bool.false_ne_true, ?_⟩
      rintro ⟨_, rest, ⟨⟩, hm', -⟩
      exact absurd hm' (hm rest)
  · next hne =>
    refine ⟨fun h => absurd h Bool.false_ne_true, ?_⟩
    rintro ⟨msg, _, rfl, -⟩
    exact absurd rfl (hne msg)

/-- **A broker is connected from the first `REGOK` with endpoints on.** -/
theorem step_connectedN (h : step env b e = .done b' sends) :
    b'.connectedN = (b.connectedN || e.endpoints) := by
  by_cases hregok : ∃ msg rest, e = .dealer msg ∧ dealerCmd msg = some (.regok, rest)
  · obtain ⟨msg, rest, rfl, hm⟩ := hregok
    rcases sOnDealerMsg_eq env b msg with ⟨cmd, rest', hm', heq⟩ | ⟨hm', -⟩
    · rw [hm] at hm'
      cases hm'
      rw [show step env b (.dealer msg) = _ from heq] at h
      cases h
      simp only [Event.endpoints, hm]
    · rw [hm] at hm'
      cases hm'
  · have hends : e.endpoints = false := by
      unfold Event.endpoints
      split
      · next msg =>
        split
        · next rest hm => exact absurd ⟨msg, rest, rfl, hm⟩ hregok
        · rfl
      · rfl
    rw [hends, Bool.or_false]
    by_cases hheart : e = .heartbeat
    · subst hheart
      rw [show step env b .heartbeat = sHeartbeat b from rfl, sHeartbeat] at h
      cases h
      simp only
      split <;> rfl
    · exact (step_links h (fun msg rest he hm => hregok ⟨msg, rest, he, hm⟩) hheart).connectedN

/-! ## The nonce -/

/-- **The nonce after a step** is the one it encrypted a challenge with, or the one before. -/
theorem step_takenNonce (h : step env b e = .done b' sends) :
    b'.nonce = (takenNonce env b e).getD b.nonce := by
  by_cases hregok : ∃ msg rest, e = .dealer msg ∧ dealerCmd msg = some (.regok, rest)
  · obtain ⟨msg, rest, rfl, hm⟩ := hregok
    rcases sOnDealerMsg_eq env b msg with ⟨cmd, rest', hm', heq⟩ | ⟨hm', -⟩
    · rw [hm] at hm'
      cases hm'
      rw [show step env b (.dealer msg) = _ from heq] at h
      cases h
      rfl
    · rw [hm] at hm'
      cases hm'
  · by_cases hheart : e = .heartbeat
    · subst hheart
      rw [show step env b .heartbeat = sHeartbeat b from rfl, sHeartbeat] at h
      cases h
      simp only
      split <;> rfl
    · exact (step_links h (fun msg rest he hm => hregok ⟨msg, rest, he, hm⟩) hheart).nonce

omit [DecidableEq H] in
/-- A nonce that is taken is the next one. -/
theorem eq_of_takenNonce {n : Frame} (h : takenNonce env b e = some n) :
    n = env.nonceIncrement b.nonce := by
  unfold takenNonce at h
  split at h
  · split at h
    · split at h
      · exact (Option.some.inj h).symm
      · cases h
    · obtain ⟨_, -, rfl⟩ := Option.map_eq_some_iff.mp h
      rfl
    · cases h
  · cases h

/-- **A step keeps the nonce or takes the next one.** -/
theorem step_nonce (h : step env b e = .done b' sends) :
    b'.nonce = b.nonce ∨ b'.nonce = env.nonceIncrement b.nonce := by
  rw [step_takenNonce h]
  cases htaken : takenNonce env b e with
  | none => exact Or.inl rfl
  | some n => exact Or.inr (eq_of_takenNonce htaken)

/-- The nonce keeps its length. -/
theorem Reachable.length_nonce (hinc : ∀ n, (env.nonceIncrement n).length = n.length)
    {cfg : Config} (h : Reachable env cfg b) : b.nonce.length = cfg.nonce.length :=
  h.induction (P := fun b => b.nonce.length = cfg.nonce.length) rfl fun _ _ _ _ hb hs => by
    obtain h | h := step_nonce hs
    · rw [h, hb]
    · rw [h, hinc, hb]

end DoubleDecker
