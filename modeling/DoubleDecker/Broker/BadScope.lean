import DoubleDecker.Broker.Scope
import DoubleDecker.Broker.Subs

/-!
# Broker/BadScope — scope strings that ask for what is not there

`s_cb_sub` and `s_cb_unsub` log a scope string that has too many components, or one that is neither
a star nor a number, and go on: the former after they freed the strings they go on with, the latter
with the component as it is.
-/

namespace DoubleDecker

variable {H : Type} [DecidableEq H] {env : Env H} {b b' : DdBroker H} {e : Event}
  {sends : List Send} {cmd : Cmd} {s : Frame} {ln : LocalClient} {topic scopestr : CStr}

/-! ## Bad scopes -/

/-- `is_int`. -/
def isInt (s : CStr) : Bool := s.bytes.all fun c => 48 ≤ c && c ≤ 57

/-- **A bad scope string** — more components than the broker's scope, or one that is neither a star
nor a number. -/
def badScope (scope : List CStr) (scopestr : CStr) : Bool :=
  scopestr ≠ noscope && (scope.length < (scopestr.tokens slash).length ||
    (scopestr.tokens slash).any fun token => token.bytes ≠ [42] && !isInt token)

/-- The event is a command of a client with a topic and a scope string. -/
def Asks (env : Env H) (b : DdBroker H) (e : Event) (cmd : Cmd) (s : Frame) (ln : LocalClient)
    (topic scopestr : CStr) : Prop :=
  ∃ msg cookie topicFrame scopeFrame rest, e = .router msg ∧
    routerCmd msg = some (s, cmd, cookie :: topicFrame :: scopeFrame :: rest) ∧
    acceptedFor env b s cookie = some ln ∧ CStr.ofBytes topicFrame = topic ∧
    CStr.ofBytes scopeFrame = scopestr

/-- **A request is refused whole**: both stores stay, and neither a `SUBOK` nor a frame for the sub
sockets is sent. -/
def RefusedWhole (env : Env H) (b : DdBroker H) (e : Event) : Prop :=
  ∃ b' sends, step env b e = .done b' sends ∧ b'.subscribeHt = b.subscribeHt ∧
    b'.topicsTrie = b.topicsTrie ∧
    ∀ x ∈ sends, x.cmd ≠ some .subok ∧ (∀ msg, x ≠ .subN msg) ∧ ∀ msg, x ≠ .subS msg

/-! ## What the handlers do with them -/

/-- **A `SUB` is never refused.** -/
theorem sub_not_refused (h : Asks env b e .sub s ln topic scopestr) : ¬ RefusedWhole env b e := by
  obtain ⟨msg, cookie, topicFrame, scopeFrame, rest, rfl, hm, hacc, -, -⟩ := h
  rintro ⟨b', sends, hstep, -, -, hsends⟩
  rw [step_router hm] at hstep
  simp only [onRouterCmd, sCbSub, acceptedFor_eq_some.mp hacc] at hstep
  have hsubok : ∃ body, Send.rsock s (ddMsg .subok body) ∈ sends := by
    split at hstep
    · cases hstep
    · next topic scopestr key _ =>
      split at hstep
      · cases hstep
      · split at hstep
        · cases hstep
        · cases hstep
          refine ⟨[topic.bytes, scopestr.bytes], ?_⟩
          split
          · exact List.mem_append_left _ (List.mem_singleton_self _)
          · exact List.mem_singleton_self _
  obtain ⟨body, hmem⟩ := hsubok
  exact (hsends _ hmem).1 (cmd_rsock _ _ _)

/-- **`remove_subscription` leaves `subscribe_ht` just when the socket id has no node there**, and
then it does nothing. -/
theorem removeSubscription_stays (hinj : Function.Injective env.xxh32) (hok : TablesOk env b)
    (key : CStr) : (∀ sn ∈ b.subscribeHt.nodes, sn.sockid ≠ s) ∧
        removeSubscription env b s key = some (b, 0) ∨
      (∃ sn ∈ b.subscribeHt.nodes, sn.sockid = s) ∧
        ∀ b' n, removeSubscription env b s key = some (b', n) → b'.subscribeHt ≠ b.subscribeHt := by
  have hm : ∀ a : SubscribeNode, a.sockid = s → matchSubscribeNode s a = some true :=
    fun a ha => by rw [matchSubscribeNode, ha, memcmpKey_self]
  unfold removeSubscription
  rw [hok.hasSubscribe hinj]
  cases hfind : b.subscribeHt.nodes.find? fun n => n.sockid = s with
  | none =>
    rw [List.find?_eq_none] at hfind
    exact Or.inl ⟨fun sn hsn hs => hfind sn hsn (decide_eq_true hs), rfl⟩
  | some sn =>
    have hmem := List.mem_of_find?_eq_some hfind
    have hs : sn.sockid = s := by simpa using List.find?_some hfind
    refine Or.inr ⟨⟨sn, hmem, hs⟩, fun b' n h heq => ?_⟩
    obtain ⟨root, -, h⟩ := Option.bind_eq_some_iff.mp h
    cases h
    -- the node is not in the table it was deleted from
    have hdel := Lfht.mem_nodes_del (a := sn) hinj hok.subKeyed hok.subNodup hm
    change b.subscribeHt.del (env.xxh32 s) (matchSubscribeNode s) = b.subscribeHt at heq
    rw [heq] at hdel
    exact (hdel.mp hmem).2 hs

/-- An `UNSUB` of a registered client asks for the removal of a key, or faults on its strings. -/
theorem asks_unsub (h : Asks env b e .unsub s ln topic scopestr) (hscope : scopestr ≠ noscope) :
    if topic ≠ publicName ∧ (scopestr.tokens slash).length ≤ b.scope.length ∧
        (scopeText (expand b.scope (scopestr.tokens slash))).length ≤ 129 then
      ∃ key, request env b e = .unsub ln s key
    else step env b e = .fault [] := by
  obtain ⟨msg, cookie, topicFrame, scopeFrame, rest, rfl, hm, hacc, rfl, rfl⟩ := h
  have hsub : subRequest b.scope ln (topicFrame :: scopeFrame :: rest) =
      if CStr.ofBytes topicFrame = publicName then none
      else (newscope b.scope (CStr.ofBytes scopeFrame)).map fun newscope =>
        (CStr.ofBytes topicFrame, CStr.ofBytes scopeFrame,
          subTopic ln.tenant (CStr.ofBytes topicFrame) newscope) := rfl
  rw [newscope_cases hscope] at hsub
  split
  · next hc =>
    rw [if_neg hc.1, if_pos hc.2] at hsub
    simp only [request, hm, routerRequest, hacc, hsub]
    exact ⟨_, rfl⟩
  · next hc =>
    have hnone : subRequest b.scope ln (topicFrame :: scopeFrame :: rest) = none := by
      rw [hsub]
      split
      · rfl
      · next hpub => rw [if_neg fun hfit => hc ⟨hpub, hfit⟩, Option.map_none]
    rw [step_router hm]
    change sCbUnsub env b s cookie (topicFrame :: scopeFrame :: rest) = _
    have htouch : (b.touch ln).scope = b.scope := rfl
    simp only [sCbUnsub, acceptedFor_eq_some.mp hacc, htouch, hnone]

/-- **An `UNSUB` is refused** just when its scope string is taken apart without a fault and the
socket id has no subscriptions. -/
theorem unsub_refused_iff (hinj : Function.Injective env.xxh32) (hok : TablesOk env b)
    (h : Asks env b e .unsub s ln topic scopestr) (hscope : scopestr ≠ noscope) :
    RefusedWhole env b e ↔ (topic ≠ publicName ∧
      (scopestr.tokens slash).length ≤ b.scope.length ∧
      (scopeText (expand b.scope (scopestr.tokens slash))).length ≤ 129) ∧
      ∀ sn ∈ b.subscribeHt.nodes, sn.sockid ≠ s := by
  have hasks := asks_unsub h hscope
  split at hasks
  · next hc =>
    obtain ⟨key, hreq⟩ := hasks
    rw [RefusedWhole, step_unsub hreq]
    obtain ⟨hnone, hrem⟩ | ⟨⟨sn, hmem, hs⟩, hrem⟩ := removeSubscription_stays (s := s) hinj hok key
    · rw [hrem]
      refine iff_of_true ⟨_, _, rfl, rfl, rfl, fun x hx => ?_⟩ ⟨hc, hnone⟩
      exact absurd hx List.not_mem_nil
    · refine iff_of_false ?_ fun hcond => hcond.2 sn hmem hs
      rintro ⟨b', sends, hstep, hht, -⟩
      split at hstep
      · cases hstep
      · next b₁ n hb₁ =>
        cases hstep
        exact hrem b₁ n hb₁ hht
  · next hc =>
    rw [RefusedWhole, hasks]
    refine iff_of_false ?_ fun hcond => hc hcond.1
    rintro ⟨_, _, hstep, -⟩
    cases hstep

/-- **Bad scopes are refused** for an `UNSUB` of a client without subscriptions whose scope string
can be taken apart, and for no `SUB`. -/
theorem bad_scope_refused_iff (hinj : Function.Injective env.xxh32) {cfg : Config}
    (h : Reachable env cfg b) (hcmd : cmd = .sub ∨ cmd = .unsub)
    (hasks : Asks env b e cmd s ln topic scopestr) (hbad : badScope b.scope scopestr) :
    RefusedWhole env b e ↔ cmd = .unsub ∧ (topic ≠ publicName ∧
      (scopestr.tokens slash).length ≤ b.scope.length ∧
      (scopeText (expand b.scope (scopestr.tokens slash))).length ≤ 129) ∧
      ∀ sn ∈ b.subscribeHt.nodes, sn.sockid ≠ s := by
  obtain rfl | rfl := hcmd
  · exact iff_of_false (sub_not_refused hasks) fun hcond => by cases hcond.1
  · have hscope : scopestr ≠ noscope := by
      rw [badScope, Bool.and_eq_true] at hbad
      exact of_decide_eq_true hbad.1
    rw [unsub_refused_iff hinj (h.tablesOk hinj) hasks hscope]
    exact (and_iff_right rfl).symm

/-- A scope string with a component that is no number. -/
def letterScope : CStr := text "/x/"

/-- A request of the demo client with it. -/
def letterEvent (cmd : Cmd) : Event := .router ([1, 2, 3, 4, 5] :: ddMsg cmd
  [(cookieOf 65).1, CStr.ascii "y", letterScope.bytes])

theorem headRun_asks : ∃ b : DdBroker (List UInt8), Reachable plainEnv demoConfig b ∧
    b.scope = demoConfig.scope ∧ ∀ cmd,
      Asks plainEnv b (letterEvent cmd) cmd [1, 2, 3, 4, 5] headClient
      (text "y") letterScope := by
  obtain ⟨b, hb, hacc⟩ := Option.map_eq_some_iff.mp headRun_accepts
  have hrun : Run plainEnv demoConfig headRun b := .of_runEvents hb
  exact ⟨b, ⟨headRun, hrun⟩, hrun.scope, fun cmd => ⟨_, _, _, _, _, rfl, routerCmd_ddMsg _ _ _,
    hacc, rfl, CStr.ofBytes_bytes _⟩⟩

/-- An `UNSUB` of a client without subscriptions. -/
theorem bad_scope_headRun : ∃ b : DdBroker (List UInt8), Reachable plainEnv demoConfig b ∧
    (RefusedWhole plainEnv b (letterEvent .unsub) ↔ Cmd.unsub = .unsub ∧ (text "y" ≠ publicName ∧
      (letterScope.tokens slash).length ≤ b.scope.length ∧
      (scopeText (expand b.scope (letterScope.tokens slash))).length ≤ 129) ∧
      ∀ sn ∈ b.subscribeHt.nodes, sn.sockid ≠ [1, 2, 3, 4, 5]) := by
  obtain ⟨b, hreach, hscope, hasks⟩ := headRun_asks
  refine ⟨b, hreach, bad_scope_refused_iff (fun _ _ h => h) hreach (Or.inr rfl) (hasks .unsub) ?_⟩
  rw [hscope]
  decide

/-- **Bad scopes are not refused.** -/
theorem not_bad_scope_refused : ¬ ∀ (H : Type) [DecidableEq H] (env : Env H),
    Function.Injective env.xxh32 → ∀ (cfg : Config) (b : DdBroker H), Reachable env cfg b →
    ∀ (e : Event) (cmd : Cmd) (s : Frame) (ln : LocalClient) (topic scopestr : CStr),
    cmd = .sub ∨ cmd = .unsub → Asks env b e cmd s ln topic scopestr → badScope b.scope scopestr →
    RefusedWhole env b e := by
  intro hall
  obtain ⟨b, hreach, hscope, hasks⟩ := headRun_asks
  refine sub_not_refused (hasks .sub)
    (hall _ plainEnv Function.injective_id demoConfig b hreach _ _ _
    _ _ _ (Or.inl rfl) (hasks .sub) ?_)
  rw [hscope]
  decide

end DoubleDecker
