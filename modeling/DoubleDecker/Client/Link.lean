import DoubleDecker.Broker.Subs
import DoubleDecker.Client.Handlers
import DoubleDecker.Library.InFlight

/-!
# Client/Link — a client, its broker and the two channels between them

The client keeps a list of topics and scopes, the broker the keys they expand to.  `dd_unsubscribe`
takes an entry of the topic off the list, whatever its scope; for its message the broker drops every
key of the socket id.  The two agree in every run in which the entry that goes is the only one
(`subscriptions_agree`).
-/

namespace DoubleDecker

open Trie

variable {H : Type} [DecidableEq H] (env : Env H) (s : Frame) (ln : LocalClient)

/-! ## One client and its broker -/

/-- A client and its broker, and the messages on their way up and down, in order. -/
structure Link (H : Type) where
  client : DdClient
  broker : DdBroker H
  up : List (List Frame)
  down : List (List Frame)

/-- What happens next: a call of the application, or the arrival of a message. -/
inductive LinkEvent where
  | subscribe (topic scope : CStr)
  | unsubscribe (topic scope : CStr)
  | toBroker
  | toClient

namespace Link

/-- The link of a client that was just registered. -/
def start (c : DdClient) (b : DdBroker H) : Link H := ⟨c, b, [], []⟩

/-- What an event does.  A message that its receiver does not survive has no outcome. -/
def act (l : Link H) : LinkEvent → Option (Link H)
  | .subscribe topic scope =>
    let h := ddSubscribe l.client topic scope
    some { l with client := h.self, up := l.up ++ h.sends }
  | .unsubscribe topic scope =>
    let h := ddUnsubscribe l.client topic scope
    some { l with client := h.self, up := l.up ++ h.sends }
  | .toBroker =>
    match l.up with
    | [] => none
    | m :: up =>
      match step env l.broker (.router (s :: m)) with
      | .done b sends =>
        some { l with broker := b, up, down := l.down ++ sends.filterMap (Send.toSocket s) }
      | .fault _ => none
  | .toClient =>
    match l.down with
    | [] => none
    | m :: down =>
      (sOnClientMsg env l.client m).map fun h =>
        { l with client := h.self, down, up := l.up ++ h.sends }

/-- The link after some events, the first one first. -/
def run (l : Link H) : List LinkEvent → Option (Link H)
  | [] => some l
  | e :: es => (l.act env s e).bind fun l => l.run es

/-- The events meet a condition at every step. -/
def meets (cond : Link H → LinkEvent → Bool) (l : Link H) : List LinkEvent → Bool
  | [] => true
  | e :: es => cond l e && (l.act env s e).all fun l => l.meets cond es

end Link

/-! ## Agreement -/

/-- The key the broker makes of a topic and a scope string; `none` for the topic `public`, and for a
scope it does not expand. -/
def itemKey (scope : List CStr) (tenant topic scopestr : CStr) : Option CStr :=
  if topic = publicName then none
  else (newscope scope scopestr).map (subTopic tenant topic)

/-- The keys of a client's list. -/
def listKeys (scope : List CStr) (tenant : CStr) (l : Zlistx Ddtopic) : Set CStr :=
  {key | ∃ item ∈ l.items, itemKey scope tenant item.topic item.scope = some key}

omit [DecidableEq H] in
/-- **Client and broker agree** — both stores have the keys of the client's list for its socket
id. -/
def Link.Agrees {H : Type} (l : Link H) : Prop :=
  ∀ key, (key ∈ topicsOf l.broker s ↔
      key ∈ listKeys l.broker.scope ln.tenant l.client.sublist) ∧
    (s ∈ held l.broker.topicsTrie key.bytes ↔
      key ∈ listKeys l.broker.scope ln.tenant l.client.sublist)

/-- The calls the broker has a key for. -/
def Link.asked (l : Link H) : LinkEvent → Bool
  | .subscribe topic scope | .unsubscribe topic scope =>
    (itemKey l.broker.scope ln.tenant topic (scopestr scope)).isSome
  | _ => true

/-- The trie is safe for what a request removes or adds. -/
def Request.trieSafe {H : Type} (self : DdBroker H) : Request → Bool
  | .sub _ sockid key => (Op.subscribe key.bytes sockid).safe self.topicsTrie
  | .unsub _ sockid _ => removalSafe self sockid
  | _ => true

/-- **A step that keeps the agreement** — an unsubscription finds an empty list, or one entry of its
topic that expands to the same key, and the trie is safe for the operations that arrive. -/
def Link.inStep (l : Link H) : LinkEvent → Bool
  | .subscribe topic scope => l.asked ln (.subscribe topic scope)
  | .unsubscribe topic scope => l.asked ln (.unsubscribe topic scope) &&
      match l.client.sublist.items with
      | [] => true
      | [item] => decide (item.topic = topic) &&
        decide (itemKey l.broker.scope ln.tenant topic item.scope =
          itemKey l.broker.scope ln.tenant topic (scopestr scope))
      | _ => false
  | .toBroker =>
    match l.up with
    | [] => true
    | m :: _ => (request env l.broker (.router (s :: m))).trieSafe l.broker
  | .toClient => true

/-! ## What the messages ask for -/

/-- What a message asks the broker for. -/
inductive SubOp where
  | sub (key : CStr)
  | unsub (key : CStr)

/-- What becomes of the keys of the socket id: an `UNSUB` takes all. -/
def SubOp.apply : SubOp → Set CStr → Set CStr
  | sub key, keys => insert key keys
  | unsub _, _ => ∅

/-- An `UNSUB` meets no other key than its own. -/
def SubOp.guard : SubOp → Set CStr → Prop
  | sub _, _ => True
  | unsub key, keys => keys ⊆ {key}

/-- The message of a client for an operation. -/
inductive SubOp.Carries (scope : List CStr) (tenant : CStr) (cookie : Frame) :
    List Frame → SubOp → Prop
  | sub {topic scopestr key : CStr} : itemKey scope tenant topic scopestr = some key →
      Carries scope tenant cookie (ddMsg .sub [cookie, topic.bytes, scopestr.bytes]) (.sub key)
  | unsub {topic scopestr key : CStr} : itemKey scope tenant topic scopestr = some key →
      Carries scope tenant cookie (ddMsg .unsub [cookie, topic.bytes, scopestr.bytes]) (.unsub key)

/-- **The state of a link in which every step was in step.** -/
structure Link.Ok (l : Link H) : Prop where
  tables : TablesOk env l.broker
  stores : StoresOk l.broker
  accepted : acceptedFor env l.broker s l.client.cookie.1 = some ln
  registered : l.client.state = .registered
  head : l.client.sublist.cursor = 0
  /-- The broker lags behind the client by the messages on their way up. -/
  lags : ∃ ops, List.Forall₂ (SubOp.Carries l.broker.scope ln.tenant l.client.cookie.1) l.up ops ∧
    Lags SubOp.apply SubOp.guard ops {key | key ∈ topicsOf l.broker s}
      (listKeys l.broker.scope ln.tenant l.client.sublist)
  answers : ∀ m ∈ l.down, ∃ topic scope, m = ddMsg .subok [topic, scope]

variable {env s ln} {l l' : Link H}

/-- With nothing on its way the two agree. -/
theorem Link.Ok.agrees (h : l.Ok env s ln) (hup : l.up = []) : l.Agrees s ln := by
  obtain ⟨ops, hcarries, hlags⟩ := h.lags
  rw [hup, List.forall₂_nil_left_iff] at hcarries
  subst hcarries
  have hkeys := hlags.eq_of_nil
  intro key
  rw [← hkeys, h.stores.holds.mem, mem_pairsOf]
  exact ⟨Iff.rfl, Iff.rfl⟩

/-! ## The client's list -/

section

variable {scope : List CStr} {tenant topic sc : CStr} {list : Zlistx Ddtopic}

/-- Entries that differ in their flags only have the same keys. -/
theorem listKeys_pass (hhead : list.cursor = 0) (f : Ddtopic → Ddtopic)
    (hf : ∀ item, (f item).topic = item.topic ∧ (f item).scope = item.scope) :
    listKeys scope tenant (list.pass f) = listKeys scope tenant list := by
  rw [Zlistx.pass_of_head f hhead]
  ext key
  simp only [listKeys, Zlistx.ofItems, Set.mem_ofPred_eq, List.mem_map, exists_exists_and_eq_and,
    hf]

/-- **`sublist_add` adds the key of the entry.** -/
theorem listKeys_sublistAdd (hhead : list.cursor = 0) {key : CStr}
    (hkey : itemKey scope tenant topic sc = some key) (active : Bool) :
    listKeys scope tenant (sublistAdd list topic sc active) =
      insert key (listKeys scope tenant list) ∧
    (sublistAdd list topic sc active).cursor = 0 := by
  unfold sublistAdd
  simp only [Zlistx.rest_of_head hhead]
  have hpass := @listKeys_pass scope tenant list hhead
    (fun item => if decide (item.topic = topic) && decide (item.scope = sc) then
      { item with active := active } else item) fun item => by split <;> exact ⟨rfl, rfl⟩
  split
  · next hfound =>
    refine ⟨?_, by rw [Zlistx.pass_of_head _ hhead]; rfl⟩
    obtain ⟨item, hitem, hsame⟩ := List.any_eq_true.mp hfound
    rw [Bool.and_eq_true, decide_eq_true_eq, decide_eq_true_eq] at hsame
    rw [hpass, Set.insert_eq_of_mem]
    exact ⟨item, hitem, by rw [hsame.1, hsame.2, hkey]⟩
  · refine ⟨?_, by rw [Zlistx.pass_of_head _ hhead]; rfl⟩
    ext k
    rw [← hpass, Set.mem_insert_iff]
    simp only [listKeys, Zlistx.addStart, Set.mem_ofPred_eq, List.mem_cons, exists_eq_or_imp, hkey,
      Option.some.injEq, eq_comm (a := key)]

/-- **`sublist_delete` of the only entry** leaves an empty list. -/
theorem items_sublistDelete (hhead : list.cursor = 0)
    (hitems : list.items = [] ∨ ∃ item, list.items = [item] ∧ item.topic = topic) :
    (sublistDelete list topic).items = [] ∧ (sublistDelete list topic).cursor = 0 := by
  unfold sublistDelete Zlistx.find
  obtain hnil | ⟨item, hone, htopic⟩ := hitems
  · simp [hnil, hhead]
  · simp [hone, htopic, Zlistx.delete]

theorem listKeys_nil (h : list.items = []) : listKeys scope tenant list = ∅ := by
  simp [listKeys, h]

end

/-! ## The broker's side -/

section

variable {b b' : DdBroker H} {cookie : Frame} {topic sc key : CStr} {sends : List Send}

omit [DecidableEq H] in
/-- What a topic and a scope string ask for. -/
theorem subRequest_of_itemKey {scope : List CStr}
    (hkey : itemKey scope ln.tenant topic sc = some key) :
    subRequest scope ln [topic.bytes, sc.bytes] = some (topic, sc, key) := by
  unfold itemKey at hkey
  split at hkey
  · cases hkey
  · next hpub =>
    obtain ⟨text, htext, rfl⟩ := Option.map_eq_some_iff.mp hkey
    simp [subRequest, zmsgPopstr, hpub, htext]

/-- The keys of the socket id after an operation. -/
theorem keys_sub (hinj : Function.Injective env.xxh32) (hok : TablesOk env b)
    (h : addSubscription env b s key = some b') :
    {k | k ∈ topicsOf b' s} = insert key {k | k ∈ topicsOf b s} ∧ b'.lclCliHt = b.lclCliHt := by
  obtain ⟨⟨b₁, n⟩, hb₁, h⟩ := Option.bind_eq_some_iff.mp h
  obtain ⟨⟨root, r⟩, -, rfl⟩ := Option.map_eq_some_iff.mp h
  have htop := hok.topicsOf_insert hinj hb₁ s
  obtain ⟨ht, rfl⟩ := insertSubscription_frame hb₁
  refine ⟨?_, rfl⟩
  ext k
  have htop' : topicsOf { b with subscribeHt := ht, topicsTrie := root } s =
    topicsOf { b with subscribeHt := ht } s := rfl
  rw [Set.mem_insert_iff, Set.mem_ofPred_eq, htop', htop]
  split
  · rw [List.mem_append, List.mem_singleton, or_comm, Set.mem_ofPred_eq]
  · next hin =>
    have hin : key ∈ topicsOf b s := by
      by_contra hnot
      exact hin ⟨rfl, hnot⟩
    rw [Set.mem_ofPred_eq]
    exact ⟨Or.inr, fun hk => hk.elim (fun he => he ▸ hin) id⟩

omit [DecidableEq H] in
/-- A list of different keys among one. -/
theorem eq_nil_or_singleton {l : List CStr} (hnd : l.Nodup) (h : {k | k ∈ l} ⊆ {key}) :
    l = [] ∨ l = [key] := by
  rcases l with _ | ⟨a, _ | ⟨a', l⟩⟩
  · exact Or.inl rfl
  · obtain rfl : a = key := h List.mem_cons_self
    exact Or.inr rfl
  · have ha : a = key := h List.mem_cons_self
    have ha' : a' = key := h (List.mem_cons_of_mem _ List.mem_cons_self)
    simp [ha, ha'] at hnd

/-- Whether a client is accepted depends on the local clients only. -/
theorem acceptedFor_congr (h : b'.lclCliHt = b.lclCliHt) (sockid : Frame) :
    acceptedFor env b' sockid cookie = acceptedFor env b sockid cookie := by
  rw [acceptedFor, acceptedFor, hashtableHasLocalNode, hashtableHasLocalNode, h]

/-- **One operation arrives at the broker.** -/
theorem step_subOp (hinj : Function.Injective env.xxh32) (hok : TablesOk env b)
    (hst : StoresOk b) (hacc : acceptedFor env b s cookie = some ln) {m : List Frame} {op : SubOp}
    (hcarries : op.Carries b.scope ln.tenant cookie m)
    (hguard : op.guard {k | k ∈ topicsOf b s})
    (hsafe : (request env b (.router (s :: m))).trieSafe b)
    (hstep : step env b (.router (s :: m)) = .done b' sends) :
    StoresOk b' ∧ acceptedFor env b' s cookie = some ln ∧
      {k | k ∈ topicsOf b' s} = op.apply {k | k ∈ topicsOf b s} := by
  obtain ⟨b₁, heff, hsame⟩ := step_effect hstep
  have htop : topicsOf b' s = topicsOf b₁ s := by rw [topicsOf, topicsOf, hsame.subscribeHt]
  cases hcarries with
  | @sub topic sc key hkey =>
    have hreq : request env b (.router (s :: ddMsg .sub [cookie, topic.bytes, sc.bytes])) =
        .sub ln s key := by
      simp [request, routerRequest, hacc, subRequest_of_itemKey hkey]
    rw [hreq] at heff hsafe
    have hst' := hst.step hinj hok (by rw [storesSafe, hreq]; exact hsafe) hstep
    obtain ⟨hkeys, hlcl⟩ := keys_sub hinj hok heff
    refine ⟨hst', (acceptedFor_congr (hsame.lclCliHt.trans hlcl) s).trans hacc, ?_⟩
    rw [htop, hkeys]
    rfl
  | @unsub topic sc key hkey =>
    have hreq : request env b (.router (s :: ddMsg .unsub [cookie, topic.bytes, sc.bytes])) =
        .unsub ln s key := by
      simp [request, routerRequest, hacc, subRequest_of_itemKey hkey]
    rw [hreq] at heff hsafe
    have hsafe : removalSafe b s := hsafe
    have hst' := hst.step hinj hok (by
      rw [storesSafe, hreq, Request.storesSafe]
      obtain htopics | htopics := eq_nil_or_singleton (hst.nodup s) hguard
      · simp [htopics]
      · simp [htopics, hsafe]) hstep
    obtain ⟨⟨b₂, n⟩, hrem, rfl⟩ := Option.map_eq_some_iff.mp heff
    have hlcl : b₂.lclCliHt = b.lclCliHt := by
      obtain rfl | ⟨root, rfl⟩ := removeSubscription_eq hrem <;> rfl
    refine ⟨hst', (acceptedFor_congr (hsame.lclCliHt.trans hlcl) s).trans hacc, ?_⟩
    rw [htop, topicsOf_unsub hinj hok hrem s, if_pos rfl]
    simp [SubOp.apply]

omit [DecidableEq H] in
/-- What is told to the other brokers is not for a client. -/
theorem toSocket_tellSubs (self : DdBroker H) (first : UInt8) (key : CStr) :
    (tellSubs self first key).filterMap (Send.toSocket s) = [] := by
  unfold tellSubs
  split <;> rfl

/-- **The answers of the broker**: one `SUBOK` for a `SUB`. -/
theorem step_answers {m : List Frame} {op : SubOp} {scope : List CStr} {tenant : CStr}
    (hcarries : op.Carries scope tenant cookie m)
    (hstep : step env b (.router (s :: m)) = .done b' sends) :
    ∀ m ∈ sends.filterMap (Send.toSocket s), ∃ topic scope, m = ddMsg .subok [topic, scope] := by
  cases hcarries with
  | @sub topic sc key hkey =>
    rw [step_router (routerCmd_ddMsg _ _ _)] at hstep
    simp only [onRouterCmd, sCbSub] at hstep
    split at hstep
    · cases hstep
    · cases hstep
      simp
    · split at hstep
      · cases hstep
      · split at hstep
        · cases hstep
        · split at hstep
          · cases hstep
          · cases hstep
            intro m hm
            split at hm <;> simp [Send.toSocket, toSocket_tellSubs] at hm <;> exact ⟨_, _, hm⟩
  | @unsub topic sc key hkey =>
    rw [step_router (routerCmd_ddMsg _ _ _)] at hstep
    simp only [onRouterCmd, sCbUnsub] at hstep
    split at hstep
    · cases hstep
    · cases hstep
      simp
    · split at hstep
      · cases hstep
      · split at hstep
        · cases hstep
        · cases hstep
          split <;> simp [toSocket_tellSubs]

omit [DecidableEq H] in
/-- The client marks the entry. -/
theorem onClientMsg_subok (c : DdClient) (topic scope : Frame) :
    sOnClientMsg env c (ddMsg .subok [topic, scope]) = some { self := { c with
      timeout := 0
      sublist := sublistActivate c.sublist (CStr.ofBytes topic) (CStr.ofBytes scope) } } := by
  simp [sOnClientMsg, ddMsg, onClientCmd, cbSubok]

end

/-! ## Every step -/

namespace Link

/-- **A call of `dd_subscribe`** adds the key to the list and sends it. -/
theorem Ok.subscribe (h : l.Ok env s ln) {topic scope : CStr}
    (hin : l.inStep env s ln (.subscribe topic scope))
    (hact : l.act env s (.subscribe topic scope) = some l') : l'.Ok env s ln := by
  cases hact
  obtain ⟨key, hkey⟩ := Option.isSome_iff_exists.mp hin
  obtain ⟨ops, hcarries, hlags⟩ := h.lags
  obtain ⟨hlist, hhead⟩ := listKeys_sublistAdd h.head hkey false
  refine { h with head := hhead, lags := ⟨ops ++ [.sub key], ?_, ?_⟩ }
  · simp only [ddSubscribe, h.registered, if_true]
    exact List.rel_append hcarries (.cons (.sub hkey) .nil)
  · simp only [ddSubscribe, hlist]
    exact hlags.send trivial

/-- **A call of `dd_unsubscribe`** that is in step empties the list. -/
theorem Ok.unsubscribe (h : l.Ok env s ln) {topic scope : CStr}
    (hin : l.inStep env s ln (.unsubscribe topic scope))
    (hact : l.act env s (.unsubscribe topic scope) = some l') : l'.Ok env s ln := by
  cases hact
  rw [inStep, Bool.and_eq_true] at hin
  obtain ⟨hasked, hin⟩ := hin
  obtain ⟨key, hkey⟩ := Option.isSome_iff_exists.mp hasked
  obtain ⟨ops, hcarries, hlags⟩ := h.lags
  -- the list is empty or has one entry, of the same topic and with the same key
  have honly : (l.client.sublist.items = [] ∨
      ∃ item, l.client.sublist.items = [item] ∧ item.topic = topic) ∧
      listKeys l.broker.scope ln.tenant l.client.sublist ⊆ {key} := by
    rcases hitems : l.client.sublist.items with _ | ⟨item, _ | ⟨item', rest⟩⟩
    · exact ⟨Or.inl rfl, by simp [listKeys, hitems]⟩
    · rw [hitems] at hin
      simp only [Bool.and_eq_true, decide_eq_true_eq] at hin
      refine ⟨Or.inr ⟨item, rfl, hin.1⟩, ?_⟩
      rintro k ⟨item', hitem', hk⟩
      rw [hitems, List.mem_singleton] at hitem'
      rw [hitem', hin.1, hin.2, hkey, Option.some.injEq] at hk
      exact hk.symm
    · rw [hitems] at hin
      cases hin
  obtain ⟨hnil, hhead⟩ := items_sublistDelete h.head honly.1
  refine { h with head := hhead, lags := ⟨ops ++ [.unsub key], ?_, ?_⟩ }
  · simp only [ddUnsubscribe, h.registered, if_true]
    exact List.rel_append hcarries (.cons (.unsub hkey) .nil)
  · simp only [ddUnsubscribe, listKeys_nil hnil]
    exact hlags.send honly.2

/-- **A message arrives at the broker.** -/
theorem Ok.toBroker (hinj : Function.Injective env.xxh32) (h : l.Ok env s ln)
    (hin : l.inStep env s ln .toBroker) (hact : l.act env s .toBroker = some l') :
    l'.Ok env s ln := by
  simp only [act] at hact
  split at hact
  · cases hact
  · next m up hup =>
    split at hact
    · next b sends hstep =>
      cases hact
      obtain ⟨ops, hcarries, hlags⟩ := h.lags
      rw [hup] at hcarries
      obtain ⟨op, ops, hop, hrest, rfl⟩ := List.forall₂_cons_left_iff.mp hcarries
      obtain ⟨hguard, hlags⟩ := hlags.receive
      rw [inStep, hup] at hin
      obtain ⟨hst, hacc, hkeys⟩ :=
        step_subOp hinj h.tables h.stores h.accepted hop hguard hin hstep
      have hscope := (step_frame hstep).scope
      refine ⟨h.tables.step hinj hstep, hst, hacc, h.registered, h.head, ⟨ops, ?_, ?_⟩, ?_⟩
      · simpa only [hscope] using hrest
      · simpa only [hscope, hkeys] using hlags
      · intro m hm
        obtain hm | hm := List.mem_append.mp hm
        · exact h.answers m hm
        · exact step_answers hop hstep m hm
    · cases hact

/-- **A message arrives at the client.** -/
theorem Ok.toClient (h : l.Ok env s ln) (hact : l.act env s .toClient = some l') :
    l'.Ok env s ln := by
  simp only [act] at hact
  split at hact
  · cases hact
  · next m down hdown =>
    obtain ⟨topic, scope, rfl⟩ := h.answers m (hdown ▸ List.mem_cons_self)
    rw [onClientMsg_subok] at hact
    cases hact
    have hpass := fun sc tenant => @listKeys_pass sc tenant l.client.sublist h.head
      (fun item => if item.topic = CStr.ofBytes topic ∧ item.scope = CStr.ofBytes scope then
        { item with active := true } else item) fun item => by split <;> exact ⟨rfl, rfl⟩
    obtain ⟨ops, hcarries, hlags⟩ := h.lags
    refine { h with
      head := by rw [sublistActivate, Zlistx.pass_of_head _ h.head]; rfl
      lags := ⟨ops, by simpa using hcarries, ?_⟩
      answers := fun m hm => h.answers m (hdown ▸ List.mem_cons_of_mem _ hm) }
    rw [sublistActivate, hpass]
    exact hlags

/-- **Every step that is in step keeps the invariant.** -/
theorem Ok.act (hinj : Function.Injective env.xxh32) (h : l.Ok env s ln) {e : LinkEvent}
    (hin : l.inStep env s ln e) (hact : l.act env s e = some l') : l'.Ok env s ln := by
  cases e with
  | subscribe topic scope => exact h.subscribe hin hact
  | unsubscribe topic scope => exact h.unsubscribe hin hact
  | toBroker => exact h.toBroker hinj hin hact
  | toClient => exact h.toClient hact

/-- **A run of steps that are in step.** -/
theorem Ok.run (hinj : Function.Injective env.xxh32) (h : l.Ok env s ln) {es : List LinkEvent}
    (hmeets : l.meets env s (inStep env s ln) es) (hrun : l.run env s es = some l') :
    l'.Ok env s ln := by
  induction es generalizing l with
  | nil =>
    cases hrun
    exact h
  | cons e es ih =>
    rw [Link.meets, Bool.and_eq_true] at hmeets
    obtain ⟨l₁, hact, hrun⟩ := Option.bind_eq_some_iff.mp hrun
    rw [hact, Option.all_some] at hmeets
    exact ih (h.act hinj hmeets.1 hact) hmeets.2 hrun

end Link

/-- **Client and broker agree on the subscriptions** — in every run in which each unsubscription
finds an empty list or the one entry it names, once nothing is on its way up. -/
theorem subscriptions_agree (hinj : Function.Injective env.xxh32) {cfg : Config} {es : List Event}
    {b : DdBroker H} (hrun : RunIf env cfg (storesSafe env) es b) {c : DdClient}
    (hreg : c.state = .registered) (hacc : acceptedFor env b s c.cookie.1 = some ln)
    (hempty : c.sublist = .empty) (hnone : topicsOf b s = []) {calls : List LinkEvent}
    (hmeets : (Link.start c b).meets env s (Link.inStep env s ln) calls)
    (hl : (Link.start c b).run env s calls = some l) (hup : l.up = []) : l.Agrees s ln := by
  have hstart : (Link.start c b).Ok env s ln := by
    refine ⟨Reachable.tablesOk hinj ⟨_, hrun.run⟩, hrun.storesOk hinj fun _ _ => id, hacc, hreg,
      by rw [Link.start, hempty]; rfl, ⟨[], .nil, ?_⟩, fun m hm => absurd hm List.not_mem_nil⟩
    simp only [Link.start, hnone, hempty, @listKeys_nil _ _ Zlistx.empty rfl]
    simpa using @lags_nil _ _ SubOp.apply SubOp.guard ∅
  exact (hstart.run hinj hmeets hl).agrees hup

/-! ### The second of two topics -/

/-- The client `x` of the tenant `a`, just registered. -/
def subscriber : DdClient where
  clientName := text "x"
  timeout := 0
  state := .registered
  loop := Zloop.empty.timer .sHeartbeat
  registrationLoop := 0
  heartbeatLoop := 1
  cookie := cookieOf 65
  keys := ⟨false, text "hashA", [], [], [], []⟩
  sublist := .empty
  nonce := []

/-- Its entry at the broker. -/
def subscriberEntry : LocalClient := ⟨text "x", text "a.x", text "a", cookieOf 65, [1, 2, 3, 4, 5]⟩

/-- A topic is subscribed and unsubscribed before another one. -/
def oneByOne : List LinkEvent :=
  [.subscribe (text "x") (text "all"), .toBroker, .unsubscribe (text "x") (text "all"),
    .subscribe (text "y") (text "all"), .toBroker, .toClient, .toBroker, .toClient]

/-- One of two topics is unsubscribed. -/
def oneOfTwo : List LinkEvent :=
  [.subscribe (text "x") (text "all"), .subscribe (text "y") (text "all"), .toBroker, .toBroker,
    .toClient, .toClient, .unsubscribe (text "x") (text "all"), .toBroker]

/-- The broker of the client. -/
theorem subscriber_start : (runEvents plainEnv (ddBrokerNew _ demoConfig) headRun).map (fun b =>
    (acceptedFor plainEnv b [1, 2, 3, 4, 5] (cookieOf 65).1, topicsOf b [1, 2, 3, 4, 5])) =
    some (some subscriberEntry, []) := by
  decide

theorem oneByOne_run : (runEvents plainEnv (ddBrokerNew _ demoConfig) headRun).map (fun b =>
    ((Link.start subscriber b).meets plainEnv [1, 2, 3, 4, 5]
        (Link.inStep plainEnv [1, 2, 3, 4, 5] subscriberEntry) oneByOne,
      ((Link.start subscriber b).run plainEnv [1, 2, 3, 4, 5] oneByOne).map Link.up)) =
    some (true, some []) := by
  decide +kernel

/-- Topics that come one at a time. -/
theorem subscriptions_agree_oneByOne : ∃ (b : DdBroker (List UInt8)) (l : Link (List UInt8)),
    Reachable plainEnv demoConfig b ∧
      (Link.start subscriber b).run plainEnv [1, 2, 3, 4, 5] oneByOne = some l ∧
      l.Agrees [1, 2, 3, 4, 5] subscriberEntry := by
  obtain ⟨b, hb, hstart⟩ := Option.map_eq_some_iff.mp subscriber_start
  obtain ⟨hacc, hnone⟩ := Prod.mk.inj hstart
  have hfacts := oneByOne_run
  rw [hb, Option.map_some, Option.some.injEq, Prod.mk.injEq] at hfacts
  obtain ⟨l, hl, hup⟩ := Option.map_eq_some_iff.mp hfacts.2
  have hrun : RunIf plainEnv demoConfig (storesSafe plainEnv) headRun b :=
    .of_runEvents (by decide) hb
  exact ⟨b, l, ⟨_, hrun.run⟩, hl,
    subscriptions_agree Function.injective_id hrun rfl hacc rfl hnone hfacts.1 hl hup⟩

theorem oneOfTwo_asked : (runEvents plainEnv (ddBrokerNew _ demoConfig) headRun).map (fun b =>
    (Link.start subscriber b).meets plainEnv [1, 2, 3, 4, 5]
    (Link.asked subscriberEntry) oneOfTwo) =
    some true := by
  decide +kernel

theorem oneOfTwo_run : ((runEvents plainEnv (ddBrokerNew _ demoConfig) headRun).bind fun b =>
    ((Link.start subscriber b).run plainEnv [1, 2, 3, 4, 5] oneOfTwo).map fun l =>
      (l.up ++ l.down, topicsOf l.broker [1, 2, 3, 4, 5], l.client.sublist.items.map fun item =>
        itemKey l.broker.scope (text "a") item.topic item.scope)) =
    some ([], [], [some (text "a.y/")]) := by
  decide +kernel

/-- **Client and broker do not always agree** — of two subscriptions the one that was not
unsubscribed is in the client's list only. -/
theorem not_subscriptions_agree : ¬ ∀ (H : Type) [DecidableEq H] (env : Env H),
    Function.Injective env.xxh32 → ∀ (cfg : Config) (es : List Event) (b : DdBroker H),
    RunIf env cfg (storesSafe env) es b → ∀ (s : Frame) (ln : LocalClient) (c : DdClient),
    c.state = .registered → acceptedFor env b s c.cookie.1 = some ln → c.sublist = .empty →
    topicsOf b s = [] → ∀ (calls : List LinkEvent) (l : Link H),
    (Link.start c b).meets env s (Link.asked ln) calls →
    (Link.start c b).run env s calls = some l → l.up = [] → l.down = [] → l.Agrees s ln := by
  intro hall
  obtain ⟨b, hb, hstart⟩ := Option.map_eq_some_iff.mp subscriber_start
  obtain ⟨hacc, hnone⟩ := Prod.mk.inj hstart
  have hasked := oneOfTwo_asked
  have hend := oneOfTwo_run
  rw [hb, Option.map_some, Option.some.injEq] at hasked
  rw [hb, Option.bind_some] at hend
  obtain ⟨l, hl, hend⟩ := Option.map_eq_some_iff.mp hend
  simp only [Prod.mk.injEq, List.append_eq_nil_iff] at hend
  obtain ⟨⟨hup, hdown⟩, htopics, hitems⟩ := hend
  have hagrees := hall _ plainEnv Function.injective_id demoConfig headRun b
    (.of_runEvents (by decide) hb) [1, 2, 3, 4, 5] subscriberEntry subscriber rfl hacc rfl
    hnone oneOfTwo l hasked hl hup hdown (text "a.y/")
  have hkey : text "a.y/" ∈ listKeys l.broker.scope subscriberEntry.tenant l.client.sublist :=
    List.mem_map.mp (hitems ▸ List.mem_singleton_self _)
  have hmem := hagrees.1.mpr hkey
  rw [htopics] at hmem
  exact absurd hmem List.not_mem_nil

end DoubleDecker
