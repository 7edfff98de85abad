import DoubleDecker.Broker.Exact
import DoubleDecker.Broker.Routing

/-!
# Broker/Relabelled — a step of the broker without a hash

One equation for each handler: on tables of hashes it does what it does on the tables of keys, and
sends the same (`step_relabel`).
-/

namespace DoubleDecker

open Trie

variable {H : Type} [DecidableEq H] {env : Env H}

/-! ## The handlers -/

omit [DecidableEq H] in
theorem deliver_relabel (hash : List UInt8 → H) (self : DdBroker (List UInt8)) (ln : LocalClient)
    (srcpublic dstpublic : Bool) (src : CStr) (payload : List Frame) :
    deliver (self.relabel hash) ln srcpublic dstpublic src payload =
      (deliver self ln srcpublic dstpublic src payload).relabel hash := by
  rw [deliver_eq, deliver_eq]
  cases shownSource srcpublic dstpublic src <;> rfl

omit [DecidableEq H] in
theorem sendNodst_relabel (hash : List UInt8 → H) (self : DdBroker (List UInt8)) (sockid : Frame)
    (srcpublic dstpublic : Bool) (src dst : CStr) :
    sendNodst (self.relabel hash) sockid srcpublic dstpublic src dst =
      (sendNodst self sockid srcpublic dstpublic src dst).relabel hash := by
  rw [sendNodst, sendNodst]
  split_ifs
  · rfl
  · cases src.after dot <;> cases dst.after dot <;> rfl

omit [DecidableEq H] in
/-- The destination a client names. -/
theorem resolve_mem {V : Vocabulary} {self : DdBroker (List UInt8)} {c : LocalClient}
    (hok : TablesOk env.exact self) (hc : c ∈ self.lclCliHt.nodes)
    {dest : Frame} (hdest : CStr.ofBytes dest ∈ V.names)
    (hfull : ∀ hash ten, self.keys.tenant hash = some ten →
      joined 255 ten.name (CStr.ofBytes dest) ∈ V.names) :
    (resolve self.keys c.tenant (CStr.ofBytes dest)).1 ∈ V.names := by
  obtain ⟨hash, ten, hten, hname, -⟩ := hok.tenant c hc
  have hjoined := hfull hash ten hten
  rw [hname] at hjoined
  rw [resolve]
  split_ifs <;> assumption

omit [DecidableEq H] in
theorem addlcl_relabel (self : DdBroker (List UInt8)) (sockid : Frame) (msg : List Frame) :
    sCbAddlcl env (self.relabel env.xxh32) sockid msg =
      (sCbAddlcl env.exact self sockid msg).relabel env.xxh32 := by
  rcases msg with _ | ⟨hash, rest⟩
  · rfl
  · simp only [sCbAddlcl, zmsgPopstr, keys_relabel]
    cases self.keys.tenant (CStr.ofBytes hash) <;> rfl

omit [DecidableEq H] in
theorem addbr_relabel (self : DdBroker (List UInt8)) (sockid : Frame) (msg : List Frame) :
    sCbAddbr env (self.relabel env.xxh32) sockid msg =
      (sCbAddbr env.exact self sockid msg).relabel env.xxh32 := by
  rcases msg with _ | ⟨hash, rest⟩
  · rfl
  · by_cases hhash : CStr.ofBytes hash = self.keys.hash
    · simp only [sCbAddbr, zmsgPopstr, keys_relabel, ne_eq, hhash, not_true_eq_false, if_false]
      rfl
    · simp only [sCbAddbr, zmsgPopstr, keys_relabel, ne_eq, hhash, not_false_eq_true, if_true]
      rfl

omit [DecidableEq H] in
theorem chall_relabel (self : DdBroker (List UInt8)) (msg : List Frame) :
    sCbChall env (self.relabel env.xxh32) msg =
      (sCbChall env.exact self msg).relabel env.xxh32 := by
  rcases msg with _ | ⟨encrypted, rest⟩
  · rfl
  · simp only [sCbChall, zmsgPop, keys_relabel, Env.exact_boxOpenEasyAfternm]
    split_ifs
    · rfl
    · cases env.boxOpenEasyAfternm (encrypted.drop 24) (encrypted.take 24) self.keys.ddboxk <;> rfl

omit [DecidableEq H] in
theorem regok_relabel (hash : List UInt8 → H) (self : DdBroker (List UInt8)) (msg : List Frame) :
    sCbRegok (self.relabel hash) msg = (sCbRegok self msg).relabel hash := by
  simp only [sCbRegok, DdBroker.relabel, Outcome.relabel, Lfht.nodes_relabel]
  rfl

/-- The eight bytes of a cookie frame. -/
theorem val_readCookie {f : Frame} {cookie : Cookie} (h : readCookie f = some cookie) :
    cookie.1 = f.take 8 := by
  rw [readCookie] at h
  split_ifs at h
  rw [← Option.some.inj h]

section

variable {V : Vocabulary} (hinj : Set.InjOn env.xxh32 V.keys) {self : DdBroker (List UInt8)}
  (hself : self.Within V)

include hinj hself

theorem carry_relabel {srcpublic dstpublic : Bool} {src dst : CStr} (hdst : dst ∈ V.names)
    (payload : List Frame) {nodst : Outcome H} {nodst' : Outcome (List UInt8)}
    (hnodst : nodst = nodst'.relabel env.xxh32) :
    carry env (self.relabel env.xxh32) srcpublic dstpublic src dst payload nodst =
      (carry env.exact self srcpublic dstpublic src dst payload nodst').relabel env.xxh32 := by
  rw [carry, carry, hasRev_relabel hinj hself hdst, hasDist_relabel hinj hself hdst]
  cases hashtableHasRevLocalNode env.exact self dst with
  | some ln => exact deliver_relabel _ _ _ _ _ _ _
  | none =>
    cases hashtableHasDistNode env.exact self dst with
    | some dn => rfl
    | none =>
      simp only [state_relabel, hnodst]
      split_ifs <;> rfl

theorem forwardDsock_relabel {msg : List Frame}
    (hmsg : ∀ f ∈ (msg.drop 1).take 1, CStr.ofBytes f ∈ V.names) :
    sCbForwardDsock env (self.relabel env.xxh32) msg =
      (sCbForwardDsock env.exact self msg).relabel env.xxh32 := by
  rcases msg with _ | ⟨src, _ | ⟨dst, payload⟩⟩
  · rfl
  · rfl
  · rw [sCbForwardDsock_eq, sCbForwardDsock_eq]
    exact carry_relabel hinj hself (hmsg dst List.mem_cons_self) payload rfl

theorem forwardRsock_relabel {sockid cookieFrame : Frame} {msg : List Frame}
    (ha : (sockid, cookieFrame.take 8) ∈ V.accounts)
    (hmsg : ∀ f ∈ (msg.drop 1).take 1, CStr.ofBytes f ∈ V.names) :
    sCbForwardRsock env (self.relabel env.xxh32) sockid cookieFrame msg =
      (sCbForwardRsock env.exact self sockid cookieFrame msg).relabel env.xxh32 := by
  cases hcookie : readCookie cookieFrame with
  | none => simp only [sCbForwardRsock, hcookie, Outcome.relabel]
  | some cookie =>
    have hbr := hasBroker_relabel hinj hself (val_readCookie hcookie ▸ ha)
    cases hnp : hashtableHasLocalBroker env.exact self sockid cookie with
    | none => simp only [sCbForwardRsock, hcookie, hbr, hnp, Outcome.relabel]
    | some o =>
      cases o with
      | none => simp only [sCbForwardRsock, hcookie, hbr, hnp, Outcome.relabel]
      | some np =>
        rcases msg with _ | ⟨src, _ | ⟨dst, payload⟩⟩
        · simp only [sCbForwardRsock, hcookie, hbr, hnp]
          rfl
        · simp only [sCbForwardRsock, hcookie, hbr, hnp]
          rfl
        · rw [sCbForwardRsock_eq hcookie (hbr.trans hnp), sCbForwardRsock_eq hcookie hnp]
          have htouch : (self.touchBroker np).Within V :=
            hself.sameTables (sameTables_touchBroker self np)
          exact carry_relabel hinj htouch (hmsg dst List.mem_cons_self) payload rfl

theorem ping_relabel {sockid cookie : Frame} (ha : (sockid, cookie) ∈ V.accounts)
    (hbr : (sockid, cookie.take 8) ∈ V.accounts) :
    sCbPing env (self.relabel env.xxh32) sockid cookie =
      (sCbPing env.exact self sockid cookie).relabel env.xxh32 := by
  rw [sCbPing, sCbPing, hasLocal_relabel hinj hself ha]
  cases hashtableHasLocalNode env.exact self sockid cookie with
  | none => rfl
  | some o =>
    cases o with
    | some np => rfl
    | none =>
      cases hcookie : readCookie cookie with
      | none => rfl
      | some cook =>
        simp only [hasBroker_relabel hinj hself (val_readCookie hcookie ▸ hbr)]
        cases hashtableHasLocalBroker env.exact self sockid cook with
        | none => rfl
        | some o => cases o <;> rfl

theorem pub_relabel {sockid cookie : Frame} (ha : (sockid, cookie) ∈ V.accounts)
    (msg : List Frame) : sCbPub env (self.relabel env.xxh32) sockid cookie msg =
      (sCbPub env.exact self sockid cookie msg).relabel env.xxh32 := by
  simp only [sCbPub, hasLocal_relabel hinj hself ha]
  cases hashtableHasLocalNode env.exact self sockid cookie with
  | none => rfl
  | some o =>
    cases o with
    | none => rfl
    | some ln =>
      cases zmsgPopstr msg with
      | mk topic rest =>
        cases topic with
        | none => rfl
        | some topic =>
          have hcompose : composeTopic ((self.touch ln).relabel env.xxh32) ln topic =
            composeTopic (self.touch ln) ln topic := rfl
          simp only [touch_relabel, hcompose, topicsTrie_relabel, connectedN_relabel,
            brokerId_relabel]
          split_ifs
          · rfl
          · cases (self.touch ln).connectedN <;> cases (self.touch ln).brokerId <;>
              cases nnTrieTree (self.touch ln).topicsTrie
                (composeTopic (self.touch ln) ln topic).2.1.bytes <;> rfl

theorem sub_relabel {sockid cookie : Frame} (hs : sockid ∈ V.sockids)
    (ha : (sockid, cookie) ∈ V.accounts) (msg : List Frame) :
      sCbSub env (self.relabel env.xxh32) sockid cookie msg =
      (sCbSub env.exact self sockid cookie msg).relabel env.xxh32 := by
  rw [sCbSub, sCbSub, hasLocal_relabel hinj hself ha]
  cases hashtableHasLocalNode env.exact self sockid cookie with
  | none => rfl
  | some o =>
    cases o with
    | none => rfl
    | some ln =>
      have htouch : (self.touch ln).Within V := hself.sameTables (sameTables_touch self ln)
      simp only [touch_relabel, scope_relabel]
      cases subRequest (self.touch ln).scope ln msg with
      | none => rfl
      | some p =>
        obtain ⟨topic, scopestr, key⟩ := p
        simp only [insertSubscription_relabel hinj htouch hs]
        cases insertSubscription env.exact (self.touch ln) sockid key with
        | none => rfl
        | some q =>
          simp only [Option.map_some, topicsTrie_relabel]
          cases nnTrieSubscribe q.1.topicsTrie key.bytes sockid <;> rfl

theorem unsub_relabel {sockid cookie : Frame} (hs : sockid ∈ V.sockids)
    (ha : (sockid, cookie) ∈ V.accounts) (msg : List Frame) :
      sCbUnsub env (self.relabel env.xxh32) sockid cookie msg =
      (sCbUnsub env.exact self sockid cookie msg).relabel env.xxh32 := by
  rw [sCbUnsub, sCbUnsub, hasLocal_relabel hinj hself ha]
  cases hashtableHasLocalNode env.exact self sockid cookie with
  | none => rfl
  | some o =>
    cases o with
    | none => rfl
    | some ln =>
      have htouch : (self.touch ln).Within V := hself.sameTables (sameTables_touch self ln)
      simp only [touch_relabel, scope_relabel]
      cases subRequest (self.touch ln).scope ln msg with
      | none => rfl
      | some p =>
        obtain ⟨topic, scopestr, key⟩ := p
        simp only [removeSubscription_relabel hinj htouch hs]
        cases removeSubscription env.exact (self.touch ln) sockid key <;> rfl

theorem adddcl_relabel {sockid cookieFrame : Frame} {msg : List Frame}
    (ha : (sockid, cookieFrame.take 8) ∈ V.accounts)
    (hmsg : ∀ f ∈ msg.take 1, CStr.ofBytes f ∈ V.names) :
    sCbAdddcl env (self.relabel env.xxh32) sockid cookieFrame msg =
      (sCbAdddcl env.exact self sockid cookieFrame msg).relabel env.xxh32 := by
  rw [sCbAdddcl, sCbAdddcl]
  cases hcookie : readCookie cookieFrame with
  | none => rfl
  | some cookie =>
    simp only [hasBroker_relabel hinj hself (val_readCookie hcookie ▸ ha)]
    cases hashtableHasLocalBroker env.exact self sockid cookie with
    | none => rfl
    | some o =>
      cases o with
      | none => rfl
      | some np =>
        rcases msg with _ | ⟨name, _ | ⟨distFrame, rest⟩⟩
        · rfl
        · rfl
        · have hname := hmsg name List.mem_cons_self
          simp only [zmsgPopstr, zmsgPop, hasRev_relabel hinj hself hname,
            hasDist_relabel hinj hself hname, insertDist_relabel]
          split_ifs
          · rfl
          · rfl
          · cases readU32 distFrame <;> rfl

theorem unregDistCli_relabel {sockid cookieFrame : Frame} {msg : List Frame}
    (ha : (sockid, cookieFrame.take 8) ∈ V.accounts)
    (hmsg : ∀ f ∈ msg.take 1, CStr.ofBytes f ∈ V.names) :
    sCbUnregDistCli env (self.relabel env.xxh32) sockid cookieFrame msg =
      (sCbUnregDistCli env.exact self sockid cookieFrame msg).relabel env.xxh32 := by
  rw [sCbUnregDistCli, sCbUnregDistCli]
  cases hcookie : readCookie cookieFrame with
  | none => rfl
  | some cookie =>
    simp only [hasBroker_relabel hinj hself (val_readCookie hcookie ▸ ha)]
    cases hashtableHasLocalBroker env.exact self sockid cookie with
    | none => rfl
    | some o =>
      cases o with
      | none => rfl
      | some np =>
        rcases msg with _ | ⟨name, rest⟩
        · rfl
        · have hname := hmsg name List.mem_cons_self
          simp only [zmsgPopstr, hasDist_relabel hinj hself hname,
            removeDist_relabel hinj hself hname]
          split_ifs <;> rfl

theorem challok_relabel {sockid : Frame} {msg : List Frame}
    (hmsg : (Cmd.challok.vocabulary self.keys sockid msg).Within V) :
    sCbChallok env (self.relabel env.xxh32) sockid msg =
      (sCbChallok env.exact self sockid msg).relabel env.xxh32 := by
  rcases msg with _ | ⟨cook, _ | ⟨hash, _ | ⟨clientName, rest⟩⟩⟩
  · rfl
  · rfl
  · rfl
  · rw [sCbChallok, sCbChallok]
    rw [Cmd.vocabulary] at hmsg
    by_cases hbroker : CStr.ofBytes hash = self.keys.hash
    · rw [if_pos hbroker] at hmsg
      simp only [keys_relabel, eq_true hbroker, if_true]
      cases hcookie : readCookie cook with
      | none => rfl
      | some cookie =>
        have ha : (sockid, cookie.1) ∈ V.accounts :=
          val_readCookie hcookie ▸ hmsg.accounts List.mem_cons_self
        simp only [hasBroker_relabel hinj hself ha, insertBroker_relabel]
        by_cases hbrcookie : self.keys.cookie = cookie
        · simp only [hbrcookie, ne_eq, not_true_eq_false, if_false]
          cases hashtableHasLocalBroker env.exact self sockid cookie with
          | none => rfl
          | some o => cases o <;> rfl
        · simp only [hbrcookie, ne_eq, not_false_eq_true, if_true]
          rfl
    · rw [if_neg hbroker] at hmsg
      simp only [keys_relabel, eq_false hbroker, if_false]
      cases hten : self.keys.tenant (CStr.ofBytes hash) with
      | none => rfl
      | some ten =>
        rw [hten] at hmsg
        have hinsert := insertLocalClient_relabel hinj hself (hmsg.accounts List.mem_cons_self)
          (hmsg.names List.mem_cons_self)
        cases readCookie cook with
        | none => rfl
        | some cookie =>
          simp only [registerClient, hinsert]
          split_ifs
          · rfl
          · rfl
          · cases insertLocalClient env.exact self sockid ten (CStr.ofBytes clientName) with
            | none => rfl
            | some o => cases o <;> rfl

theorem unregCli_relabel {sockid cookie : Frame} (hok : TablesOk env.exact self)
    (hs : sockid ∈ V.sockids) (ha : (sockid, cookie) ∈ V.accounts) :
    sCbUnregCli env (self.relabel env.xxh32) sockid cookie =
      (sCbUnregCli env.exact self sockid cookie).relabel env.xxh32 := by
  rw [sCbUnregCli, sCbUnregCli, hasLocal_relabel hinj hself ha]
  cases hln : hashtableHasLocalNode env.exact self sockid cookie with
  | none => rfl
  | some o =>
    cases o with
    | none => rfl
    | some ln =>
      obtain ⟨hmem, -, -⟩ := hok.of_hasLocal Function.injective_id hln
      simp only [removeSubscriptions_relabel hinj hself hs]
      cases hrem : removeSubscriptions env.exact self sockid with
      | none => rfl
      | some p =>
        have hp := hself.removeSubscriptions hrem
        have hlocal := unlinkLocal_relabel hinj hp (hself.account ln hmem)
        have hrev := unlinkRev_relabel hinj
          (hp.unlinkLocal env ln.sockid ln.cookie) (hself.name ln hmem)
        simp only [Option.map_some, hlocal, hrev]
        rfl

theorem highError_relabel {msg : List Frame} (hok : TablesOk env.exact self)
    (hmsg : (Cmd.error.dealerVocabulary msg).Within V) :
    sCbHighError env (self.relabel env.xxh32) msg =
      (sCbHighError env.exact self msg).relabel env.xxh32 := by
  rcases msg with _ | ⟨codeFrame, msg⟩
  · rfl
  · simp only [sCbHighError, zmsgPop]
    rw [Cmd.dealerVocabulary] at hmsg
    cases hcode : readU32 codeFrame with
    | none => rfl
    | some code =>
      simp only [hcode, Option.some.injEq] at hmsg ⊢
      split_ifs at hmsg ⊢ with hnodst hregfail
      · rcases msg with _ | ⟨dst, _ | ⟨src, rest⟩⟩
        · rfl
        · rfl
        · have hname : CStr.ofBytes src ∈ V.names := hmsg.names List.mem_cons_self
          simp only [zmsgPopstr, hasRev_relabel hinj hself hname, hasDist_relabel hinj hself hname]
          cases hashtableHasRevLocalNode env.exact self (CStr.ofBytes src) with
          | some ln =>
            simp only
            cases (CStr.ofBytes dst).after dot <;> rfl
          | none =>
            simp only
            cases hashtableHasDistNode env.exact self (CStr.ofBytes src) <;> rfl
      · rcases msg with _ | ⟨cliName, rest⟩
        · rfl
        · have hname : CStr.ofBytes cliName ∈ V.names := hmsg.names List.mem_cons_self
          simp only [zmsgPopstr, hasRev_relabel hinj hself hname, hasDist_relabel hinj hself hname]
          cases hln : hashtableHasRevLocalNode env.exact self (CStr.ofBytes cliName) with
          | some ln =>
            obtain ⟨hmem, -⟩ := hok.of_hasRev Function.injective_id hln
            simp only [removeSubscriptions_relabel hinj hself (hself.sockid ln hmem)]
            cases hrem : removeSubscriptions env.exact self ln.sockid with
            | none => rfl
            | some p =>
              have hp := hself.removeSubscriptions hrem
              have hlocal := unlinkLocal_relabel hinj hp (hself.account ln hmem)
              have hrev := unlinkRev_relabel hinj
                (hp.unlinkLocal env ln.sockid ln.cookie) (hself.name ln hmem)
              simp only [Option.map_some, hlocal, hrev]
              rfl
          | none =>
            cases hashtableHasDistNode env.exact self (CStr.ofBytes cliName) with
            | none => rfl
            | some dn =>
              simp only [removeDist_relabel hinj hself hname]
              rfl
      · rfl

theorem send_relabel {sockid cookie : Frame} {msg : List Frame} (hok : TablesOk env.exact self)
    (hmsg : (Cmd.send.vocabulary self.keys sockid (cookie :: msg)).Within V) :
    sCbSend env (self.relabel env.xxh32) sockid cookie msg =
      (sCbSend env.exact self sockid cookie msg).relabel env.xxh32 := by
  have hlocal := hasLocal_relabel hinj hself (hmsg.accounts List.mem_cons_self)
  cases hln : hashtableHasLocalNode env.exact self sockid cookie with
  | none => simp only [sCbSend, hlocal, hln, Outcome.relabel]
  | some o =>
    cases o with
    | none => simp only [sCbSend, hlocal, hln, Outcome.relabel]
    | some ln =>
      rcases msg with _ | ⟨dest, payload⟩
      · simp only [sCbSend, hlocal, hln, zmsgPopstr, Outcome.relabel]
      · have htouch : (self.touch ln).Within V := hself.sameTables (sameTables_touch self ln)
        obtain ⟨hmem, -, -⟩ := hok.of_hasLocal Function.injective_id hln
        have hnames {name : CStr} (hname : name ∈ CStr.ofBytes dest ::
            self.keys.tenantkeys.map fun t => joined 255 t.2.name (CStr.ofBytes dest)) :
            name ∈ V.names := hmsg.names (List.mem_flatMap.mpr ⟨dest, List.mem_cons_self, hname⟩)
        have hdst := resolve_mem hok hmem (hnames List.mem_cons_self) fun _ ten hten =>
          hnames (List.mem_cons_of_mem _ (List.mem_map.mpr
            ⟨_, DdBrokerKeys.mem_of_tenant hten, rfl⟩))
        rw [sCbSend_eq (hlocal.trans hln), sCbSend_eq hln]
        exact carry_relabel hinj htouch hdst payload (sendNodst_relabel env.xxh32
          (self.touch ln) _ _ _ _ _)

/-- **A command of the router.** -/
theorem routerCmd_relabel (hok : TablesOk env.exact self) {source : Frame} {cmd : Cmd}
    {rest : List Frame} (h : (cmd.vocabulary self.keys source rest).Within V) :
    onRouterCmd env (self.relabel env.xxh32) source cmd rest =
      (onRouterCmd env.exact self source cmd rest).relabel env.xxh32 := by
  rcases rest with _ | ⟨cookie, msg⟩
  · cases cmd <;> rfl
  · have hnames {frames : List Frame} (hsub : frames.map CStr.ofBytes ⊆ V.names) :
        ∀ f ∈ frames, CStr.ofBytes f ∈ V.names := fun f hf => hsub (List.mem_map_of_mem hf)
    cases cmd with
    | send => exact send_relabel hinj hself hok h
    | forward =>
      exact forwardRsock_relabel hinj hself (h.accounts List.mem_cons_self) (hnames h.names)
    | ping =>
      exact ping_relabel hinj hself (h.accounts List.mem_cons_self)
        (h.accounts (List.mem_cons_of_mem _ List.mem_cons_self))
    | sub =>
      exact sub_relabel hinj hself (h.sockids List.mem_cons_self)
        (h.accounts List.mem_cons_self) msg
    | unsub =>
      exact unsub_relabel hinj hself (h.sockids List.mem_cons_self)
        (h.accounts List.mem_cons_self) msg
    | pub => exact pub_relabel hinj hself (h.accounts List.mem_cons_self) msg
    | addlcl => exact addlcl_relabel self source (cookie :: msg)
    | adddcl => exact adddcl_relabel hinj hself (h.accounts List.mem_cons_self) (hnames h.names)
    | addbr => exact addbr_relabel self source (cookie :: msg)
    | unreg =>
      exact unregCli_relabel hinj hself hok (h.sockids List.mem_cons_self)
        (h.accounts List.mem_cons_self)
    | unregdcli =>
      exact unregDistCli_relabel hinj hself (h.accounts List.mem_cons_self) (hnames h.names)
    | challok => exact challok_relabel hinj hself h
    | unregbr | data | error | regok | pong | chall | subok => rfl

/-- **A message of the router.** -/
theorem router_relabel (hok : TablesOk env.exact self) {msg : List Frame}
    (hmsg : (Event.router msg).Within self.keys V) :
    sOnRouterMsg env (self.relabel env.xxh32) msg =
      (sOnRouterMsg env.exact self msg).relabel env.xxh32 := by
  rcases msg with _ | ⟨source, _ | ⟨proto, _ | ⟨cmdFrame, rest⟩⟩⟩
  · rfl
  · rfl
  · rfl
  · simp only [sOnRouterMsg]
    cases hv : readU32 proto with
    | none => rfl
    | some pver =>
      by_cases hver : pver = ddVersion
      · subst hver
        simp only [ne_eq, not_true_eq_false, if_false]
        cases hcode : readU32 cmdFrame with
        | none => rfl
        | some code =>
          simp only
          cases hcmd : Cmd.ofCode code with
          | none => rfl
          | some cmd =>
            have hm : routerCmd (source :: proto :: cmdFrame :: rest) =
                some (source, cmd, rest) := by
              simp [routerCmd, hv, hcode, hcmd]
            rw [Event.Within, Event.vocabulary, hm] at hmsg
            exact routerCmd_relabel hinj hself hok hmsg
      · simp only [ne_eq, hver, not_false_eq_true, if_true]
        rfl

/-- **A message of the higher broker.** -/
theorem dealer_relabel (hok : TablesOk env.exact self) {msg : List Frame}
    (hmsg : (Event.dealer msg).Within self.keys V) :
    sOnDealerMsg env (self.relabel env.xxh32) msg =
      (sOnDealerMsg env.exact self msg).relabel env.xxh32 := by
  have hheard : DdBroker.Within { self with timeout := 0 } V := { hself with }
  have hokHeard : TablesOk env.exact { self with timeout := 0 } := { hok with }
  rcases msg with _ | ⟨proto, _ | ⟨cmdFrame, rest⟩⟩
  · rfl
  · rfl
  · simp only [sOnDealerMsg]
    cases hv : readU32 proto with
    | none => rfl
    | some pver =>
      by_cases hver : pver = ddVersion
      · subst hver
        simp only [ne_eq, not_true_eq_false, if_false]
        cases hcode : readU32 cmdFrame with
        | none => rfl
        | some code =>
          simp only
          cases hcmd : Cmd.ofCode code with
          | none => rfl
          | some cmd =>
            have hm : dealerCmd (proto :: cmdFrame :: rest) = some (cmd, rest) := by
              simp [dealerCmd, hv, hcode, hcmd]
            rw [Event.Within, Event.vocabulary, hm] at hmsg
            cases cmd with
            | regok => exact regok_relabel env.xxh32 { self with timeout := 0 } rest
            | forward =>
              exact forwardDsock_relabel hinj hheard fun f hf =>
                hmsg.names (List.mem_map_of_mem hf)
            | chall => exact chall_relabel { self with timeout := 0 } rest
            | error => exact highError_relabel hinj hheard hokHeard hmsg
            | send | ping | addlcl | adddcl | addbr | unreg | unregdcli | unregbr | data | pong
            | challok | pub | sub | unsub | subok => rfl
      · simp only [ne_eq, hver, not_false_eq_true, if_true]
        rfl

/-- **The client timeouts.** -/
theorem checkClients_relabel (hok : TablesOk env.exact self) (l : List LocalClient)
    (hl : ∀ c ∈ l, c.sockid ∈ V.sockids ∧ (c.sockid, c.cookie.1) ∈ V.accounts) :
    checkClients env l (self.relabel env.xxh32) =
      (checkClients env.exact l self).relabel env.xxh32 := by
  induction l generalizing self with
  | nil => rfl
  | cons np rest ih =>
    obtain ⟨⟨hs, ha⟩, hrest⟩ := List.forall_mem_cons.mp hl
    rw [checkClients, checkClients]
    by_cases hage : self.cliTimeout np < 3
    · rw [if_pos hage, if_pos (show (self.relabel env.xxh32).cliTimeout np < 3 from hage)]
      have haged : DdBroker.Within { self with
        cliTimeout := fun c => if c = np then self.cliTimeout np + 1 else self.cliTimeout c } V :=
        { hself with }
      exact ih haged { hok with } hrest
    · rw [if_neg hage, if_neg (show ¬ (self.relabel env.xxh32).cliTimeout np < 3 from hage),
        unregCli_relabel hinj hself hok hs ha]
      cases hunreg : sCbUnregCli env.exact self np.sockid np.cookie.1 with
      | fault sends => rfl
      | done self' sends =>
        have hself' : self'.Within V := by
          obtain ⟨-, rfl, -⟩ | ⟨c, -, hrem, -⟩ := sCbUnregCli_eq_done hunreg
          · exact hself
          · exact hself.removeClient hrem
        have hok' := hok.unregCli Function.injective_id hunreg
        simp only [Outcome.relabel, Outcome.done_andThen, ih hself' hok' hrest]
        cases checkClients env.exact rest self' <;> rfl

end

omit [DecidableEq H] in
/-- **The broker timeouts.** -/
theorem checkBrokers_relabel (hash : List UInt8 → H) (l : List LocalBroker)
    (self : DdBroker (List UInt8)) :
    checkBrokers l (self.relabel hash) = (checkBrokers l self).relabel hash := by
  induction l generalizing self with
  | nil => rfl
  | cons np rest ih =>
    rw [checkBrokers, checkBrokers]
    by_cases hage : self.brTimeout np < 3
    · rw [if_pos hage, if_pos (show (self.relabel hash).brTimeout np < 3 from hage)]
      exact ih { self with
        brTimeout := fun b => if b = np then self.brTimeout np + 1 else self.brTimeout b }
    · rw [if_neg hage, if_neg (show ¬ (self.relabel hash).brTimeout np < 3 from hage)]
      have hdist : Lfht.relabel hash (self.distCliHt.filter fun e => e.2.broker ≠ np.sockid) =
          (self.distCliHt.relabel hash).filter fun e => e.2.broker ≠ np.sockid :=
        Lfht.relabel_filter fun mp : DistClient => decide (mp.broker ≠ np.sockid)
      have hbr : Lfht.relabel hash (self.lclBrHt.filter fun e => e.2 ≠ np) =
          (self.lclBrHt.relabel hash).filter fun e => e.2 ≠ np :=
        Lfht.relabel_filter fun b => decide (b ≠ np)
      have hrest := ih { self with
        distCliHt := self.distCliHt.filter fun e => e.2.broker ≠ np.sockid
        lclBrHt := self.lclBrHt.filter fun e => e.2 ≠ np }
      simp only [DdBroker.relabel, hdist, hbr] at hrest
      simp only [deleteDistClients, Outcome.done_andThen, DdBroker.relabel, Lfht.nodes_relabel,
        hrest]
      cases checkBrokers rest { self with
        distCliHt := self.distCliHt.filter fun e => e.2.broker ≠ np.sockid
        lclBrHt := self.lclBrHt.filter fun e => e.2 ≠ np } <;> rfl

omit [DecidableEq H] in
theorem pubRemotely_relabel (hash : List UInt8 → H) (self : DdBroker (List UInt8))
    (pubtopic name : CStr) (msg : List Frame) :
    pubRemotely (self.relabel hash) pubtopic name msg =
      (pubRemotely self pubtopic name msg).relabel hash := by
  simp only [pubRemotely, topicsTrie_relabel]
  cases nnTrieTree self.topicsTrie pubtopic.bytes with
  | none => rfl
  | some o =>
    cases o with
    | none => rfl
    | some socks =>
      cases pubtopic.after dot with
      | none => rfl
      | some topic =>
        simp only
        split_ifs <;> rfl

omit [DecidableEq H] in
theorem andThen_relabel (hash : List UInt8 → H) {o : Outcome (List UInt8)}
    {f : DdBroker H → Outcome H} {f' : DdBroker (List UInt8) → Outcome (List UInt8)}
    (h : ∀ self, f (self.relabel hash) = (f' self).relabel hash) :
    (o.relabel hash).andThen f = (o.andThen f').relabel hash := by
  cases o with
  | fault sends => rfl
  | done self sends =>
    rw [Outcome.relabel, Outcome.done_andThen, Outcome.done_andThen, h]
    cases f' self <;> rfl

omit [DecidableEq H] in
theorem subN_relabel (hash : List UInt8 → H) (self : DdBroker (List UInt8)) (msg : List Frame) :
    sOnSubNMsg (self.relabel hash) msg = (sOnSubNMsg self msg).relabel hash := by
  simp only [sOnSubNMsg]
  change (if zframeEq _ self.brokerId = true then _ else _) = _
  split_ifs
  · rfl
  · rcases msg with _ | ⟨pubtopic, _ | ⟨name, rest⟩⟩
    · rfl
    · rfl
    · simp only [zmsgPopstr, pubRemotely_relabel]
      exact andThen_relabel hash fun _ => rfl

omit [DecidableEq H] in
theorem subS_relabel (hash : List UInt8 → H) (self : DdBroker (List UInt8)) (msg : List Frame) :
    sOnSubSMsg (self.relabel hash) msg = (sOnSubSMsg self msg).relabel hash := by
  rcases msg with _ | ⟨pubtopic, _ | ⟨name, rest⟩⟩
  · rfl
  · rfl
  · simp only [sOnSubSMsg, zmsgPopstr, pubRemotely_relabel]
    refine andThen_relabel hash fun self => ?_
    simp only [connectedN_relabel, brokerId_relabel]
    cases self.connectedN <;> cases self.brokerId <;> cases rest <;> rfl

omit [DecidableEq H] in
theorem pubN_relabel (hash : List UInt8 → H) (self : DdBroker (List UInt8)) (msg : List Frame) :
    sOnPubNMsg (self.relabel hash) msg = (sOnPubNMsg self msg).relabel hash := by
  rcases msg with _ | ⟨topicFrame, rest⟩
  · rfl
  · simp only [sOnPubNMsg, zmsgPop]
    split_ifs <;> rfl

omit [DecidableEq H] in
theorem pubS_relabel (hash : List UInt8 → H) (self : DdBroker (List UInt8)) (msg : List Frame) :
    sOnPubSMsg (self.relabel hash) msg = (sOnPubSMsg self msg).relabel hash := by
  rcases msg with _ | ⟨topicFrame, rest⟩
  · rfl
  · by_cases h : topicFrame = []
    · simp only [sOnPubSMsg, zmsgPop, if_pos h, Outcome.relabel]
    · simp only [sOnPubSMsg, zmsgPop, if_neg h]
      rfl

omit [DecidableEq H] in
theorem register_relabel (hash : List UInt8 → H) (self : DdBroker (List UInt8)) :
    sRegister (self.relabel hash) = (sRegister self).relabel hash := by
  rw [sRegister, sRegister]
  change (if self.state = .registered then _ else _) = _
  split_ifs <;> rfl

omit [DecidableEq H] in
theorem heartbeat_relabel (hash : List UInt8 → H) (self : DdBroker (List UInt8)) :
    sHeartbeat (self.relabel hash) = (sHeartbeat self).relabel hash := by
  rw [sHeartbeat, sHeartbeat]
  change Outcome.done (if 3 < self.timeout + 1 then _ else _) _ =
    Outcome.relabel hash (.done (if 3 < self.timeout + 1 then _ else _) _)
  split_ifs <;> rfl

/-- **One step** is the step of the broker with full keys. -/
theorem step_relabel {V : Vocabulary} (hinj : Set.InjOn env.xxh32 V.keys)
    {self : DdBroker (List UInt8)} (hself : self.Within V) (hok : TablesOk env.exact self)
    {e : Event} (he : e.Within self.keys V) :
    step env (self.relabel env.xxh32) e = (step env.exact self e).relabel env.xxh32 := by
  cases e with
  | router msg => exact router_relabel hinj hself hok he
  | dealer msg => exact dealer_relabel hinj hself hok he
  | subN msg => exact subN_relabel _ self msg
  | subS msg => exact subS_relabel _ self msg
  | pubN msg => exact pubN_relabel _ self msg
  | pubS msg => exact pubS_relabel _ self msg
  | register => exact register_relabel _ self
  | heartbeat => exact heartbeat_relabel _ self
  | checkCliTimeout =>
    have hnodes : (self.relabel env.xxh32).lclCliHt.nodes = self.lclCliHt.nodes :=
      Lfht.nodes_relabel _ _
    simp only [step, sCheckCliTimeout, hnodes]
    exact checkClients_relabel hinj hself hok _ fun c hc => ⟨hself.sockid c hc, hself.account c hc⟩
  | checkBrTimeout =>
    have hnodes : (self.relabel env.xxh32).lclBrHt.nodes = self.lclBrHt.nodes :=
      Lfht.nodes_relabel _ _
    simp only [step, sCheckBrTimeout, hnodes]
    exact checkBrokers_relabel _ _ self

end DoubleDecker
