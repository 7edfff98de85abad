import DoubleDecker.Broker.Links
import DoubleDecker.Broker.Routing
import DoubleDecker.Client.Handlers

/-!
# Client/Survival — a client and the messages of a broker

Every message a reachable broker sends from its router socket is laid out as the client's handler
reads it, but for the payload the broker relays unchecked: `survives_iff` says when the client finds
every frame and computes no negative length.
-/

namespace DoubleDecker

variable {H : Type} [DecidableEq H] {env : Env H} {b : DdBroker H} {e : Event}

/-! ## The handlers and the layouts -/

/-- **The client survives a message** — the handler finds every frame and string it uses, and every
length it computes is nonnegative. -/
def Survives (env : Env H) (c : DdClient) (msg : List Frame) : Prop :=
  ∃ h, sOnClientMsg env c msg = some h ∧ ∀ n ∈ h.lengths, 0 ≤ n

/-- A payload starts with a frame that holds a nonce and a MAC. -/
def payloadFits : List Frame → Bool
  | [] => false
  | encrypted :: _ => decide (0 ≤ plainLength encrypted)

/-- A message that relays what another client sent. -/
def Send.relays (x : Send) : Prop := x.cmd = some .data ∨ x.cmd = some .pub

omit [DecidableEq H] in
theorem sOnClientMsg_ddMsg (c : DdClient) (cmd : Cmd) (body : List Frame) :
    sOnClientMsg env c (ddMsg cmd body) = onClientCmd env { c with timeout := 0 } cmd body := by
  simp [sOnClientMsg, ddMsg]

/-- A length that holds a nonce and a MAC. -/
theorem length_of_plainLength {f : Frame} (h : 0 ≤ plainLength f) :
    nonceBytes + macBytes ≤ f.length := by
  have hle : enclen f ≤ f.length := by
    unfold enclen Int.bmod
    simp only
    split <;> omega
  unfold plainLength at h
  omega

/-- A nonnegative plaintext has a nonnegative ciphertext. -/
theorem cipherLength_of_plainLength {f : Frame} (h : 0 ≤ plainLength f) : 0 ≤ cipherLength f := by
  have heq : plainLength f = cipherLength f - macBytes := rfl
  have hpos : (0 : Int) ≤ macBytes := by decide
  omega

omit [DecidableEq H] in
theorem openFrame_of_le {f key : Frame} (h : nonceBytes ≤ f.length) :
    ∃ o, openFrame env f key = some o := by
  rw [openFrame, if_neg (Nat.not_lt.mpr h)]
  exact ⟨_, rfl⟩

omit [DecidableEq H] in
/-- A frame is opened without a fault and a negative length just when it fits. -/
theorem opened_iff (c : DdClient) (f key : Frame) (calls : Option Frame → List Call) :
    (∃ h : Handled, ((openFrame env f key).map fun decrypted =>
      { self := c, calls := calls decrypted, lengths := [plainLength f, cipherLength f] }) =
        some h ∧ ∀ n ∈ h.lengths, 0 ≤ n) ↔ 0 ≤ plainLength f := by
  constructor
  · rintro ⟨h, hh, hlen⟩
    obtain ⟨o, -, rfl⟩ := Option.map_eq_some_iff.mp hh
    exact hlen _ List.mem_cons_self
  · intro hfits
    obtain ⟨o, ho⟩ := @openFrame_of_le _ env f key
      ((Nat.le_add_right _ _).trans (length_of_plainLength hfits))
    refine ⟨_, by rw [ho, Option.map_some], ?_⟩
    simpa using ⟨hfits, cipherLength_of_plainLength hfits⟩

omit [DecidableEq H] in
/-- **A notification is survived just when its payload fits.** -/
theorem survives_data_iff (c : DdClient) (source : Frame) (payload : List Frame) :
    Survives env c (ddMsg .data (source :: payload)) ↔ payloadFits payload := by
  rw [Survives, sOnClientMsg_ddMsg]
  cases payload with
  | nil => simp [onClientCmd, cbData, payloadFits]
  | cons f payload =>
    rw [payloadFits, decide_eq_true_eq]
    exact opened_iff _ f _ _

omit [DecidableEq H] in
/-- **A publication is survived just when its payload fits.** -/
theorem survives_pub_iff (c : DdClient) (source topic : Frame) (payload : List Frame) :
    Survives env c (ddMsg .pub (source :: topic :: payload)) ↔ payloadFits payload := by
  rw [Survives, sOnClientMsg_ddMsg]
  cases payload with
  | nil => simp [onClientCmd, cbPub, payloadFits]
  | cons f payload =>
    rw [payloadFits, decide_eq_true_eq]
    exact opened_iff _ f _ _

omit [DecidableEq H] in
/-- A handler that computes no length. -/
theorem survives_of_lengths {c : DdClient} {msg : List Frame} {h : Handled}
    (hh : sOnClientMsg env c msg = some h) (hlen : h.lengths = []) : Survives env c msg :=
  ⟨h, hh, fun _ hn => absurd (hlen ▸ hn) List.not_mem_nil⟩

omit [DecidableEq H] in
theorem survives_error (c : DdClient) (code : UInt32) (message : Frame) (more : List Frame) :
    Survives env c (ddMsg .error (le32 code :: message :: more)) :=
  survives_of_lengths (sOnClientMsg_ddMsg c _ _) rfl

omit [DecidableEq H] in
theorem survives_regok (c : DdClient) (cookie : Cookie) (more : List Frame) :
    Survives env c (ddMsg .regok (cookie.1 :: more)) := by
  rw [Survives, sOnClientMsg_ddMsg]
  simp only [onClientCmd, cbRegok, readCookie_cookie, Option.map_some]
  exact ⟨_, rfl, fun _ hn => absurd hn List.not_mem_nil⟩

omit [DecidableEq H] in
theorem survives_pong (c : DdClient) : Survives env c (ddMsg .pong []) :=
  survives_of_lengths (sOnClientMsg_ddMsg c _ _) rfl

omit [DecidableEq H] in
theorem survives_subok (c : DdClient) (topic scope : Frame) :
    Survives env c (ddMsg .subok [topic, scope]) :=
  survives_of_lengths (sOnClientMsg_ddMsg c _ _) rfl

omit [DecidableEq H] in
/-- A client ignores a message to a broker. -/
theorem survives_forward (c : DdClient) (body : List Frame) :
    Survives env c (ddMsg .forward body) :=
  survives_of_lengths (sOnClientMsg_ddMsg c _ _) rfl

omit [DecidableEq H] in
/-- The answer to another version repeats that version, and is dropped. -/
theorem survives_version {c : DdClient} {proto : Frame} {version : UInt32}
    (hv : readU32 proto = some version) (hver : version ≠ ddVersion) (body : List Frame) :
    Survives env c (proto.take 4 :: body) := by
  have htake : readU32 (proto.take 4) = some version := by
    rcases proto with _ | ⟨x, _ | ⟨y, _ | ⟨z, _ | ⟨w, rest⟩⟩⟩⟩ <;> exact hv
  refine survives_of_lengths (h := { self := { c with timeout := 0 } }) ?_ rfl
  cases body with
  | nil => rfl
  | cons f body =>
    simp only [sOnClientMsg, htake]
    rw [if_pos hver]

omit [DecidableEq H] in
/-- **A challenge is survived**: it is as long as a nonce, a MAC and a cookie. -/
theorem survives_chall (henc : ∀ p n k, (env.boxEasyAfternm p n k).length = p.length + macBytes)
    (c : DdClient) {nonce : Frame} (hnonce : nonce.length = nonceBytes) (cookie : Cookie)
    (key : Frame) (more : List Frame) :
    Survives env c (ddMsg .chall ((nonce ++ env.boxEasyAfternm cookie.1 nonce key) :: more)) := by
  have hlen : (nonce ++ env.boxEasyAfternm cookie.1 nonce key).length = 48 := by
    rw [List.length_append, hnonce, henc, cookie.2]
    rfl
  have hencl : enclen (nonce ++ env.boxEasyAfternm cookie.1 nonce key) = 48 :=
    (congrArg (fun n : Nat => Int.bmod n (2 ^ 32)) hlen).trans
      (Int.bmod_eq_of_le (by decide) (by decide))
  have hle : nonceBytes ≤ (nonce ++ env.boxEasyAfternm cookie.1 nonce key).length := by
    rw [hlen]
    decide
  obtain ⟨o, ho⟩ := @openFrame_of_le _ env _ c.keys.ddboxk hle
  rw [Survives, sOnClientMsg_ddMsg]
  simp only [onClientCmd, cbChall, ho, Option.map_some]
  refine ⟨_, rfl, ?_⟩
  cases o <;> simp [cipherLength, plainLength, hencl, nonceBytes, macBytes]

/-! ## The messages of a broker -/

/-- Every message to a client that does not relay another's is survived. -/
def Outcome.Honest (o : Outcome H) (env : Env H) (c : DdClient) : Prop :=
  ∀ dest msg, Send.rsock dest msg ∈ o.sends →
    (Send.rsock dest msg).relays ∨ Survives env c msg

section

variable {c : DdClient}

omit [DecidableEq H] in
theorem honest_nil_done (b : DdBroker H) : (Outcome.done b []).Honest env c :=
  fun _ _ h => absurd h List.not_mem_nil

omit [DecidableEq H] in
theorem honest_nil_fault : (Outcome.fault [] : Outcome H).Honest env c :=
  fun _ _ h => absurd h List.not_mem_nil

omit [DecidableEq H] in
/-- An outcome that answers one peer, whatever else it tells other brokers. -/
theorem honest_answer {o : Outcome H} {dest : Frame} {msg : List Frame} {sends : List Send}
    (ho : o.sends = .rsock dest msg :: sends) (hmsg : Survives env c msg)
    (hsends : ∀ d m, Send.rsock d m ∉ sends) : o.Honest env c := by
  intro d m h
  rw [ho] at h
  obtain h | h := List.mem_cons.mp h
  · cases h
    exact Or.inr hmsg
  · exact absurd h (hsends d m)

omit [DecidableEq H] in
theorem not_rsock_addCliUp (b : DdBroker H) (name : CStr) (dist : UInt32) (d : Frame)
    (m : List Frame) : Send.rsock d m ∉ addCliUp b name dist := by
  unfold addCliUp
  split <;> simp

omit [DecidableEq H] in
theorem not_rsock_delCliUp (b : DdBroker H) (name : CStr) (d : Frame) (m : List Frame) :
    Send.rsock d m ∉ delCliUp b name := by
  unfold delCliUp
  split <;> simp

omit [DecidableEq H] in
theorem honest_delCliUp (b b' : DdBroker H) (name : CStr) :
    (Outcome.done b (delCliUp b' name)).Honest env c :=
  fun d m h => absurd h (not_rsock_delCliUp b' name d m)

omit [DecidableEq H] in
theorem honest_invalid (b : DdBroker H) (dest : Frame) (src dst : CStr) :
    (Outcome.done b (destInvalidRsock dest src dst)).Honest env c :=
  honest_answer rfl (survives_error c _ _ _) fun _ _ => List.not_mem_nil

omit [DecidableEq H] in
theorem honest_regFailed (b : DdBroker H) (dest : Frame) (name : CStr) :
    (Outcome.done b (remoteRegFailed dest name)).Honest env c :=
  honest_answer rfl (survives_error c _ _ _) fun _ _ => List.not_mem_nil

/-- What routing sends to a client relays. -/
theorem carry_honest (b : DdBroker H) (srcpublic dstpublic : Bool) (src dst : CStr)
    (payload : List Frame) {nodst : Outcome H} (h : nodst.Honest env c) :
    (carry env b srcpublic dstpublic src dst payload nodst).Honest env c := by
  intro d m hm
  obtain ⟨ln, s, -, -, hx⟩ | ⟨dn, -, -, hx⟩ | ⟨-, -, ⟨-, hx⟩ | ⟨-, hx⟩⟩ := carry_sends hm
  · cases hx
    exact Or.inl (Or.inl (cmd_rsock _ _ _))
  · cases hx
    exact Or.inr (survives_forward c _)
  · exact h d m hx
  · cases hx

omit [DecidableEq H] in
theorem not_rsock_tellSubs (b : DdBroker H) (first : UInt8) (key : CStr) (d : Frame)
    (m : List Frame) : Send.rsock d m ∉ tellSubs b first key := by
  unfold tellSubs
  split <;> simp

theorem honest_unregCli (b : DdBroker H) (s cookie : Frame) :
    (sCbUnregCli env b s cookie).Honest env c := by
  unfold sCbUnregCli
  split
  · exact honest_nil_fault
  · exact honest_nil_done _
  · split
    · exact fun d m hm => absurd hm (not_rsock_delCliUp _ _ d m)
    · exact honest_delCliUp _ _ _

/-- **The answers of the router's commands are survived.** -/
theorem honest_router (henc : ∀ p n k, (env.boxEasyAfternm p n k).length = p.length + macBytes)
    (hinc : ∀ n, (env.nonceIncrement n).length = n.length) {b : DdBroker H}
    (hnonce : b.nonce.length = nonceBytes) (source : Frame) (cmd : Cmd) (msg : List Frame) :
    (onRouterCmd env b source cmd msg).Honest env c := by
  have hfresh : (env.nonceIncrement b.nonce).length = nonceBytes := (hinc _).trans hnonce
  cases cmd with
  | send =>
    cases msg with
    | nil => exact honest_nil_done _
    | cons cookie msg =>
      show (sCbSend env b source cookie msg).Honest env c
      cases hln : hashtableHasLocalNode env b source cookie with
      | none =>
        simp only [sCbSend, hln]
        exact honest_nil_fault
      | some o =>
        cases o with
        | none =>
          simp only [sCbSend, hln]
          exact honest_nil_done _
        | some ln =>
          cases msg with
          | nil =>
            simp only [sCbSend, hln, zmsgPopstr]
            exact honest_nil_fault
          | cons dest payload =>
            rw [sCbSend_eq hln]
            refine carry_honest _ _ _ _ _ _ ?_
            unfold sendNodst
            (repeat' split) <;> first
              | exact honest_invalid _ _ _ _
              | exact honest_nil_fault
  | forward =>
    cases msg with
    | nil => exact honest_nil_done _
    | cons cookie msg =>
      show (sCbForwardRsock env b source cookie msg).Honest env c
      unfold sCbForwardRsock
      split
      · exact honest_nil_fault
      · split
        · exact honest_nil_fault
        · exact honest_nil_done _
        · simp only
          split
          · exact carry_honest _ _ _ _ _ _ (honest_invalid _ _ _ _)
          · exact honest_nil_done _
  | ping =>
    cases msg with
    | nil => exact honest_nil_done _
    | cons cookie msg =>
      show (sCbPing env b source cookie).Honest env c
      unfold sCbPing
      (repeat' split) <;> first
        | exact honest_nil_fault
        | exact honest_nil_done _
        | exact honest_answer rfl (survives_pong c) fun _ _ => List.not_mem_nil
  | pub =>
    cases msg with
    | nil => exact honest_nil_done _
    | cons cookie msg =>
      intro d m hm
      obtain ⟨_, _, _, _, _, _, -, -, -, -, ⟨_, hx | hx⟩ | ⟨_, -, hx⟩⟩ := sCbPub_sends hm
      · cases hx
      · cases hx
      · exact Or.inl (Or.inr (says_pubLocally _ _ _ _ _ hx))
  | sub =>
    cases msg with
    | nil => exact honest_nil_done _
    | cons cookie msg =>
      show (sCbSub env b source cookie msg).Honest env c
      unfold sCbSub
      split
      · exact honest_nil_fault
      · exact honest_nil_done _
      · simp only
        split
        · exact honest_nil_fault
        · split
          · exact honest_answer rfl (survives_subok c _ _) fun _ _ => List.not_mem_nil
          · split
            · exact honest_answer rfl (survives_subok c _ _) fun _ _ => List.not_mem_nil
            · split
              · exact honest_answer rfl (survives_subok c _ _) (not_rsock_tellSubs _ _ _)
              · exact honest_answer rfl (survives_subok c _ _) fun _ _ => List.not_mem_nil
  | unsub =>
    cases msg with
    | nil => exact honest_nil_done _
    | cons cookie msg =>
      show (sCbUnsub env b source cookie msg).Honest env c
      unfold sCbUnsub tellSubs
      simp only
      (repeat' split) <;> first
        | exact honest_nil_fault
        | exact honest_nil_done _
        | simp [Outcome.Honest, Outcome.sends]
  | addlcl =>
    have h : (sCbAddlcl env b source msg).Honest env c := by
      unfold sCbAddlcl
      split
      · exact honest_nil_done _
      · split
        · exact honest_answer rfl (survives_error c _ _ _) fun _ _ => List.not_mem_nil
        · exact honest_answer rfl (survives_chall henc c hfresh _ _ _) fun _ _ => List.not_mem_nil
    cases msg <;> exact h
  | addbr =>
    have h : (sCbAddbr env b source msg).Honest env c := by
      unfold sCbAddbr
      split
      · exact honest_nil_fault
      · split
        · exact honest_nil_done _
        · exact honest_answer rfl (survives_chall henc c hfresh _ _ _) fun _ _ => List.not_mem_nil
    cases msg <;> exact h
  | adddcl =>
    cases msg with
    | nil => exact honest_nil_done _
    | cons cookie msg =>
      show (sCbAdddcl env b source cookie msg).Honest env c
      unfold sCbAdddcl
      (repeat' split) <;> first
        | exact honest_nil_fault
        | exact honest_nil_done _
        | exact honest_regFailed _ _ _
        | exact fun d m hm => absurd hm (not_rsock_addCliUp _ _ _ d m)
  | unreg =>
    cases msg with
    | nil => exact honest_nil_done _
    | cons cookie msg => exact honest_unregCli b source cookie
  | unregdcli =>
    cases msg with
    | nil => exact honest_nil_done _
    | cons cookie msg =>
      show (sCbUnregDistCli env b source cookie msg).Honest env c
      unfold sCbUnregDistCli
      (repeat' split) <;> first
        | exact honest_nil_fault
        | exact honest_nil_done _
        | exact honest_delCliUp _ _ _
  | challok =>
    show (sCbChallok env b source msg).Honest env c
    unfold sCbChallok registerClient
    simp only
    (repeat' split) <;> first
      | exact honest_nil_fault
      | exact honest_nil_done _
      | exact honest_regFailed _ _ _
      | exact honest_answer rfl (survives_regok c _ _) fun _ _ => List.not_mem_nil
      | exact honest_answer rfl (survives_regok c _ _) fun d m => not_rsock_addCliUp _ _ _ d m
  | unregbr | data | error | regok | pong | chall | subok =>
    cases msg <;> exact honest_nil_done _

/-- The answers of the dealer's commands are survived. -/
theorem honest_dealer (b : DdBroker H) (cmd : Cmd) (msg : List Frame) :
    (onDealerCmd env b cmd msg).Honest env c := by
  cases cmd with
  | regok =>
    intro d m hm
    obtain hm | hm := List.mem_append.mp hm
    · obtain ⟨_, -, hm⟩ := List.mem_flatMap.mp hm
      exact absurd hm (not_rsock_addCliUp _ _ _ d m)
    · obtain ⟨_, -, hm⟩ := List.mem_flatMap.mp hm
      exact absurd hm (not_rsock_addCliUp _ _ _ d m)
  | forward =>
    show (sCbForwardDsock env b msg).Honest env c
    unfold sCbForwardDsock
    split
    · exact carry_honest _ _ _ _ _ _ honest_nil_fault
    · exact honest_nil_done _
  | chall =>
    show (sCbChall env b msg).Honest env c
    unfold sCbChall
    simp only
    (repeat' split) <;> first
      | exact honest_nil_fault
      | simp [Outcome.Honest, Outcome.sends]
  | error =>
    show (sCbHighError env b msg).Honest env c
    unfold sCbHighError
    simp only
    (repeat' split) <;> first
      | exact honest_nil_fault
      | exact honest_nil_done _
      | exact honest_invalid _ _ _ _
      | exact honest_regFailed _ _ _
  | send | ping | addlcl | adddcl | addbr | unreg | unregdcli | unregbr | data | pong | challok
  | pub | sub | unsub | subok => exact honest_nil_done _

theorem honest_checkClients (l : List LocalClient) (b : DdBroker H) :
    (checkClients env l b).Honest env c := by
  induction l generalizing b with
  | nil => exact honest_nil_done _
  | cons np rest ih =>
    rw [checkClients]
    split
    · exact ih _
    · have hunreg := @honest_unregCli _ _ env c b np.sockid np.cookie.1
      intro d m hm
      cases hu : sCbUnregCli env b np.sockid np.cookie.1 with
      | fault sends =>
        rw [hu] at hm hunreg
        exact hunreg d m hm
      | done b₁ sends =>
        rw [hu] at hm hunreg
        rw [Outcome.done_andThen, Outcome.sends_after] at hm
        obtain hm | hm := List.mem_append.mp hm
        · exact hunreg d m hm
        · exact ih b₁ d m hm

omit [DecidableEq H] in
theorem honest_checkBrokers (l : List LocalBroker) (b : DdBroker H) :
    (checkBrokers l b).Honest env c := by
  induction l generalizing b with
  | nil => exact honest_nil_done _
  | cons np rest ih =>
    rw [checkBrokers]
    split
    · exact ih _
    · intro d m hm
      rw [deleteDistClients, Outcome.done_andThen, Outcome.sends_after] at hm
      obtain hm | hm := List.mem_append.mp hm
      · obtain ⟨_, -, hm⟩ := List.mem_flatMap.mp hm
        exact absurd hm (not_rsock_delCliUp _ _ d m)
      · exact ih _ d m hm

/-- **What a broker says itself is survived.** -/
theorem honest_step (henc : ∀ p n k, (env.boxEasyAfternm p n k).length = p.length + macBytes)
    (hinc : ∀ n, (env.nonceIncrement n).length = n.length) {b : DdBroker H}
    (hnonce : b.nonce.length = nonceBytes) (e : Event) : (step env b e).Honest env c := by
  cases e with
  | router msg =>
    show (sOnRouterMsg env b msg).Honest env c
    rcases msg with _ | ⟨source, _ | ⟨proto, _ | ⟨cmdFrame, rest⟩⟩⟩
    · exact honest_nil_done _
    · exact honest_nil_done _
    · exact honest_nil_done _
    · simp only [sOnRouterMsg]
      cases hv : readU32 proto with
      | none => exact honest_nil_fault
      | some pver =>
        simp only
        split
        · next hver =>
          exact honest_answer rfl (survives_version hv hver _) fun _ _ => List.not_mem_nil
        · split
          · exact honest_nil_fault
          · split
            · exact honest_nil_done _
            · exact honest_router henc hinc hnonce _ _ _
  | dealer msg =>
    show (sOnDealerMsg env b msg).Honest env c
    rcases sOnDealerMsg_eq env b msg with ⟨cmd, rest, -, heq⟩ | ⟨-, heq | heq⟩
    · rw [heq]
      exact honest_dealer _ cmd rest
    · rw [heq]
      exact honest_nil_fault
    · rw [heq]
      exact honest_nil_done _
  | subN msg =>
    intro d m hm
    obtain ⟨_, _, _, -, ⟨_, hx | hx⟩ | ⟨_, _, -, hx⟩⟩ := sOnSubNMsg_sends hm
    · cases hx
    · cases hx
    · exact Or.inl (Or.inr (says_pubLocally _ _ _ _ _ hx))
  | subS msg =>
    intro d m hm
    obtain ⟨_, _, _, -, ⟨_, hx | hx⟩ | ⟨_, _, -, hx⟩⟩ := sOnSubSMsg_sends hm
    · cases hx
    · cases hx
    · exact Or.inl (Or.inr (says_pubLocally _ _ _ _ _ hx))
  | pubN msg =>
    show (sOnPubNMsg b msg).Honest env c
    unfold sOnPubNMsg
    (repeat' split) <;> first
      | exact honest_nil_fault
      | simp [Outcome.Honest, Outcome.sends]
  | pubS msg =>
    show (sOnPubSMsg b msg).Honest env c
    unfold sOnPubSMsg
    (repeat' split) <;> first
      | exact honest_nil_fault
      | simp [Outcome.Honest, Outcome.sends]
  | register =>
    show (sRegister b).Honest env c
    unfold sRegister
    split <;> simp [Outcome.Honest, Outcome.sends]
  | heartbeat => simp [step, sHeartbeat, Outcome.Honest, Outcome.sends]
  | checkCliTimeout => exact honest_checkClients _ b
  | checkBrTimeout => exact honest_checkBrokers _ b

end

/-! ## The messages that relay -/

/-- The payload of a publication: what follows the topic and one more frame. -/
def publicationPayload : Event → List Frame
  | .router msg =>
    match routerCmd msg with
    | some (_, .pub, _ :: _ :: rest) => (zmsgPop rest).2
    | _ => []
  | .subN (_ :: _ :: rest) | .subS (_ :: _ :: rest) => (zmsgPop rest).2
  | _ => []

variable (env) in
/-- The payload an event brings, of a notification or a publication. -/
def relayedPayload (b : DdBroker H) (e : Event) : List Frame :=
  ((notificationOf env b e).map Notification.payload).getD (publicationPayload e)

omit [DecidableEq H] in
theorem rsock_pubLocally {socks : Option (List Frame)} {name topic : CStr} {payload : List Frame}
    {dest : Frame} {msg : List Frame}
    (h : Send.rsock dest msg ∈ pubLocally socks name topic payload) :
    msg = ddMsg .pub (name.bytes :: topic.bytes :: payload) := by
  obtain ⟨_, -, h⟩ := List.mem_map.mp h
  cases h
  rfl

/-- **A publication to a client** has the payload the event brought. -/
theorem step_pub {dest : Frame} {msg : List Frame}
    (hpub : (Send.rsock dest msg).cmd = some .pub)
    (hmsg : Send.rsock dest msg ∈ (step env b e).sends) :
    ∃ name topic, msg = ddMsg .pub (name :: topic :: relayedPayload env b e) := by
  have hsays := @says_step _ _ env b e _ hmsg _ hpub
  cases e with
  | router msg' =>
    rcases sOnRouterMsg_eq env b msg' with ⟨s, cmd, rest, hm, heq⟩ | ⟨-, heq | ⟨_, heq, hs⟩⟩
    · rw [step, heq] at hmsg
      cases cmd with
      | pub =>
        cases rest with
        | nil => exact absurd hmsg List.not_mem_nil
        | cons cookie rest =>
          obtain ⟨_, _, rest, topic, _, name, rfl, -, -, -, ⟨_, hx | hx⟩ | ⟨_, -, hx⟩⟩ :=
            sCbPub_sends hmsg
          · cases hx
          · cases hx
          · refine ⟨name.bytes, topic.bytes, ?_⟩
            rw [rsock_pubLocally hx]
            simp [relayedPayload, publicationPayload, notificationOf, sendOf, forwardOf, hm]
      | send | forward | ping | addlcl | adddcl | addbr | unreg | unregdcli | unregbr | data | error
      | regok | pong | chall | challok | sub | unsub | subok =>
        simp [Event.answers, hm, Cmd.answers] at hsays
    · rw [step, heq] at hmsg
      exact absurd hmsg List.not_mem_nil
    · rw [step, heq] at hmsg
      rw [hs _ hmsg] at hpub
      cases hpub
  | dealer msg' =>
    simp only [Event.answers] at hsays
    cases hm : dealerCmd msg' with
    | none => rw [hm] at hsays; exact absurd hsays List.not_mem_nil
    | some p =>
      rw [hm] at hsays
      obtain ⟨cmd, rest⟩ := p
      cases cmd <;> simp [Cmd.dealerAnswers] at hsays
  | subN msg' =>
    obtain ⟨_, name, rest, rfl, ⟨_, hx | hx⟩ | ⟨_, topic, -, hx⟩⟩ := sOnSubNMsg_sends hmsg
    · cases hx
    · cases hx
    · exact ⟨_, topic.bytes, rsock_pubLocally hx⟩
  | subS msg' =>
    obtain ⟨_, name, rest, rfl, ⟨_, hx | hx⟩ | ⟨_, topic, -, hx⟩⟩ := sOnSubSMsg_sends hmsg
    · cases hx
    · cases hx
    · exact ⟨_, topic.bytes, rsock_pubLocally hx⟩
  | pubN | pubS | register | heartbeat | checkCliTimeout | checkBrTimeout =>
    simp [Event.answers] at hsays

/-- **A client survives whatever a broker sends** just when it relays no payload that does not
fit. -/
theorem survives_iff (hinj : Function.Injective env.xxh32)
    (henc : ∀ p n k, (env.boxEasyAfternm p n k).length = p.length + macBytes)
    (hinc : ∀ n, (env.nonceIncrement n).length = n.length) {cfg : Config}
    (hnonce : cfg.nonce.length = nonceBytes) (h : Reachable env cfg b) {dest : Frame}
    {msg : List Frame} (hmsg : Send.rsock dest msg ∈ (step env b e).sends) (c : DdClient) :
    Survives env c msg ↔
      ((Send.rsock dest msg).relays → payloadFits (relayedPayload env b e)) := by
  by_cases hrel : (Send.rsock dest msg).relays
  · have hiff : Survives env c msg ↔ payloadFits (relayedPayload env b e) := by
      obtain hdata | hpub := id hrel
      · obtain ⟨n, hn, ⟨_, -, -, s, hx⟩ | ⟨_, hx⟩ | ⟨_, hx⟩⟩ :=
          step_passes hinj (h.tablesOk hinj) (Or.inl hdata) hmsg
        · cases hx
          rw [survives_data_iff, relayedPayload, hn]
          rfl
        · rw [hx, cmd_rsock] at hdata
          cases hdata
        · cases hx
      · obtain ⟨name, topic, rfl⟩ := step_pub hpub hmsg
        exact survives_pub_iff c name topic _
    rw [hiff]
    exact ⟨fun hfits _ => hfits, fun hfits => hfits hrel⟩
  · have hown := honest_step (c := c) henc hinc ((h.length_nonce hinc).trans hnonce) e dest msg hmsg
    exact iff_of_true (hown.resolve_left hrel) fun hr => absurd hr hrel

/-! ### A notification without a payload -/

/-- A hash without collisions, and an encryption that puts a MAC before the plaintext. -/
def macEnv : Env (List UInt8) where
  xxh32 := id
  boxEasyAfternm plain _ _ := List.replicate macBytes 0 ++ plain
  boxOpenEasyAfternm cipher _ _ :=
    if macBytes ≤ cipher.length then some (cipher.drop macBytes) else none
  nonceIncrement := id

/-- A root broker with a nonce of the right length. -/
def macConfig : Config := { demoConfig with nonce := List.replicate nonceBytes 0 }

/-- A client of the tenant `a`. -/
def demoClient : DdClient where
  clientName := text "c"
  timeout := 0
  state := .registered
  loop := Zloop.empty.timer .sHeartbeat
  registrationLoop := 0
  heartbeatLoop := 1
  cookie := cookieOf 65
  keys := ⟨false, text "hashA", [], [], [], []⟩
  sublist := .empty
  nonce := List.replicate nonceBytes 0

/-- The clients `c` and `d` register. -/
def twoClients : List Event :=
  [secondClient, .router (challokMsg [1, 2, 3, 4, 5] (cookieOf 65) (text "hashA") (text "c"))]

/-- A `SEND` of `d` to `c`. -/
def sendToC (payload : List Frame) : Event :=
  .router ([6] :: ddMsg .send ((cookieOf 65).1 :: CStr.ascii "c" :: payload))

/-- What `c` gets. -/
def dataFromD (payload : List Frame) : List Frame := ddMsg .data (CStr.ascii "d" :: payload)

/-- A payload of a nonce, a MAC and one byte. -/
def onePayload : List Frame := [List.replicate 41 7]

theorem twoClients_send : (runEvents macEnv (ddBrokerNew _ macConfig) twoClients).map (fun b =>
    ((step macEnv b (sendToC onePayload)).sends, (step macEnv b (sendToC [])).sends,
      relayedPayload macEnv b (sendToC onePayload))) =
    some ([.rsock [1, 2, 3, 4, 5] (dataFromD onePayload)], [.rsock [1, 2, 3, 4, 5] (dataFromD [])],
      onePayload) := by
  decide

/-- A notification with a payload is survived. -/
theorem survives_onePayload : Survives macEnv demoClient (dataFromD onePayload) := by
  obtain ⟨b, hb, hfacts⟩ := Option.map_eq_some_iff.mp twoClients_send
  simp only [Prod.mk.injEq] at hfacts
  refine (@survives_iff _ _ _ _ _ Function.injective_id
    (fun p n k => by simp [macEnv, Nat.add_comm]) (fun _ => rfl) macConfig
    List.length_replicate ⟨_, .of_runEvents hb⟩ _ _
    (by rw [hfacts.1]; exact List.mem_singleton_self _) demoClient).mpr fun _ => ?_
  rw [hfacts.2.2]
  decide

/-- **A client does not survive whatever a broker sends** — not a notification without a payload. -/
theorem not_survives : ¬ ∀ (H : Type) [DecidableEq H] (env : Env H),
    Function.Injective env.xxh32 →
    (∀ p n k, (env.boxEasyAfternm p n k).length = p.length + macBytes) →
    (∀ n, (env.nonceIncrement n).length = n.length) → ∀ (cfg : Config),
    cfg.nonce.length = nonceBytes → ∀ (b : DdBroker H), Reachable env cfg b →
    ∀ (e : Event) (dest : Frame) (msg : List Frame),
    Send.rsock dest msg ∈ (step env b e).sends → ∀ c : DdClient, Survives env c msg := by
  intro hall
  obtain ⟨b, hb, hfacts⟩ := Option.map_eq_some_iff.mp twoClients_send
  simp only [Prod.mk.injEq] at hfacts
  have hsurv := hall _ macEnv Function.injective_id
    (fun p n k => by simp [macEnv, Nat.add_comm]) (fun _ => rfl) macConfig
    List.length_replicate b ⟨_, .of_runEvents hb⟩ (sendToC []) _ (dataFromD [])
    (by rw [hfacts.2.1]; exact List.mem_singleton_self _) demoClient
  exact absurd ((survives_data_iff demoClient _ []).mp hsurv) Bool.false_ne_true

end DoubleDecker
