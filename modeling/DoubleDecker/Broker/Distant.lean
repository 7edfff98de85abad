import DoubleDecker.Broker.North
import DoubleDecker.Broker.Registry

/-!
# Broker/Distant — how distant clients come and go

An entry of `dist_cli_ht` hangs under the lower broker that announced it.  The timer takes it when
that broker expires, the higher broker with an `ERROR_REGFAIL`, and a lower broker with an
`UNREGDCLI`: the handler of the last looks at the name alone, so that it need not be the broker of
the entry.
-/

namespace DoubleDecker

variable {H : Type} [DecidableEq H] {env : Env H} {b b' : DdBroker H} {e : Event}
  {sends : List Send}

/-! ## Brokers that expire -/

omit [DecidableEq H] in
/-- A list, and how often each of its elements is told to go by one of several owners, each of which
is asked once. -/
theorem flatMap_filter_perm {α β : Type} [DecidableEq β] (owner : α → β) (l : List α)
    {owners : List β}
    (hnd : owners.Nodup) : (owners.flatMap fun o => l.filter fun a => owner a = o).Perm
      (l.filter fun a => owner a ∈ owners) := by
  induction owners with
  | nil => simp
  | cons o owners ih =>
    obtain ⟨ho, hnd⟩ := List.nodup_cons.mp hnd
    rw [List.flatMap_cons]
    have hsplit := List.filter_append_perm (fun a => decide (owner a = o))
      (l.filter fun a => owner a ∈ o :: owners)
    refine List.Perm.trans (List.Perm.append ?_ ?_) hsplit
    · rw [List.filter_filter]
      refine (List.Perm.of_eq (List.filter_congr fun a _ => ?_))
      by_cases h : owner a = o <;> simp [h]
    · refine (ih hnd).trans ?_
      rw [List.filter_filter]
      refine (List.Perm.of_eq (List.filter_congr fun a _ => ?_))
      by_cases h : owner a = o
      · subst h
        simp [ho]
      · simp [h]

omit [DecidableEq H] in
theorem nodes_filter {α : Type} (t : Lfht H α) (p : α → Bool) :
    (Lfht.nodes (t.filter fun e => p e.2)) = t.nodes.filter p := by
  rw [Lfht.nodes, Lfht.nodes, List.filter_map]
  rfl

omit [DecidableEq H] in
/-- **The loop of `s_check_br_timeout`** — every broker that is three ticks old goes with its
distant clients, which are withdrawn broker by broker. -/
theorem checkBrokers_eq {l : List LocalBroker} (hnd : (l.map LocalBroker.sockid).Nodup) :
    ∃ f, checkBrokers l b = .done { b with
        distCliHt := b.distCliHt.filter fun e =>
          decide (∀ np ∈ l, 3 ≤ b.brTimeout np → e.2.broker ≠ np.sockid)
        lclBrHt := b.lclBrHt.filter fun e => decide (e.2 ∈ l → b.brTimeout e.2 < 3)
        brTimeout := f }
      ((l.filter fun np => 3 ≤ b.brTimeout np).flatMap fun np =>
        (b.distCliHt.nodes.filter fun d => d.broker = np.sockid).flatMap fun d =>
          delCliUp b d.name) := by
  induction l generalizing b with
  | nil =>
    refine ⟨b.brTimeout, ?_⟩
    simp [checkBrokers]
  | cons np rest ih =>
    obtain ⟨hnp, hnd⟩ := List.nodup_cons.mp hnd
    have hother : ∀ np' ∈ rest, np' ≠ np := fun np' h heq => hnp (heq ▸ List.mem_map_of_mem h)
    rw [checkBrokers]
    by_cases hlt : b.brTimeout np < 3
    · -- one tick more for this broker, which the rest of the loop does not meet
      obtain ⟨f, hf⟩ := ih (b := { b with
        brTimeout := fun br => if br = np then b.brTimeout np + 1 else b.brTimeout br }) hnd
      refine ⟨f, ?_⟩
      rw [if_pos hlt, hf]
      have hdist : ∀ e : H × DistClient, (∀ np' ∈ rest,
          3 ≤ (if np' = np then b.brTimeout np + 1 else b.brTimeout np') →
            e.2.broker ≠ np'.sockid) ↔
          ∀ np' ∈ np :: rest, 3 ≤ b.brTimeout np' → e.2.broker ≠ np'.sockid := by
        intro e
        rw [List.forall_mem_cons]
        refine ⟨fun h => ⟨fun h3 => absurd h3 (by omega), fun np' hmem => ?_⟩, fun h np' hmem => ?_⟩
        · simpa [hother np' hmem] using h np' hmem
        · simpa [hother np' hmem] using h.2 np' hmem
      have hbr : ∀ e : H × LocalBroker, (e.2 ∈ rest →
          (if e.2 = np then b.brTimeout np + 1 else b.brTimeout e.2) < 3) ↔
          (e.2 ∈ np :: rest → b.brTimeout e.2 < 3) := by
        intro e
        by_cases he : e.2 = np
        · simp [he, hlt, show np ∉ rest from fun h => hother np h rfl]
        · simp [he]
      have hlist : (rest.filter fun np' =>
          3 ≤ (if np' = np then b.brTimeout np + 1 else b.brTimeout np')) =
          (np :: rest).filter fun np' => 3 ≤ b.brTimeout np' := by
        rw [List.filter_cons_of_neg (by simpa using hlt)]
        refine List.filter_congr fun np' hmem => ?_
        rw [if_neg (hother np' hmem)]
      simp only [hdist, hbr, hlist]
      rfl
    · -- the entries under this broker go first, those of the others are where they were
      obtain ⟨f, hf⟩ := ih (b := { b with
        distCliHt := b.distCliHt.filter fun e => e.2.broker ≠ np.sockid
        lclBrHt := b.lclBrHt.filter fun e => e.2 ≠ np }) hnd
      refine ⟨f, ?_⟩
      rw [if_neg hlt, deleteDistClients, Outcome.done_andThen, hf, Outcome.after_done]
      have hge : 3 ≤ b.brTimeout np := by omega
      have hdist : ∀ e : H × DistClient, (decide (∀ np' ∈ rest, 3 ≤ b.brTimeout np' →
          e.2.broker ≠ np'.sockid) && decide (e.2.broker ≠ np.sockid)) =
          decide (∀ np' ∈ np :: rest, 3 ≤ b.brTimeout np' → e.2.broker ≠ np'.sockid) := by
        intro e
        rw [← Bool.decide_and, decide_eq_decide, List.forall_mem_cons]
        exact ⟨fun h => ⟨fun _ => h.2, h.1⟩, fun h => ⟨h.2, h.1 hge⟩⟩
      have hbr : ∀ e : H × LocalBroker, (decide (e.2 ∈ rest → b.brTimeout e.2 < 3) &&
          decide (e.2 ≠ np)) = decide (e.2 ∈ np :: rest → b.brTimeout e.2 < 3) := by
        intro e
        rw [← Bool.decide_and, decide_eq_decide, List.mem_cons]
        refine ⟨?_, fun h => ⟨fun hmem => h (.inr hmem), fun he => hlt (he ▸ h (.inl he))⟩⟩
        rintro ⟨h, he⟩ (rfl | hmem)
        · exact absurd rfl he
        · exact h hmem
      have hup : ∀ np' ∈ rest,
        ((Lfht.nodes (b.distCliHt.filter fun e => e.2.broker ≠ np.sockid)).filter
          fun d => d.broker = np'.sockid) =
          b.distCliHt.nodes.filter fun d => d.broker = np'.sockid := by
        intro np' hmem
        have hne : np'.sockid ≠ np.sockid := fun heq => hnp (heq ▸ List.mem_map_of_mem hmem)
        rw [nodes_filter b.distCliHt fun d => d.broker ≠ np.sockid, List.filter_filter]
        refine List.filter_congr fun d _ => ?_
        by_cases hd : d.broker = np'.sockid
        · simp [hd, hne]
        · simp [hd]
      rw [List.filter_cons_of_pos (by simpa using hge), List.flatMap_cons, List.filter_filter,
        List.filter_filter]
      simp only [hdist, hbr]
      congr 2
      refine List.flatMap_congr fun np' hmem => ?_
      rw [hup np' (List.mem_of_mem_filter hmem)]
      rfl

/-- The brokers that are three ticks old. -/
def DdBroker.expired {H : Type} (b : DdBroker H) : List LocalBroker :=
  b.lclBrHt.nodes.filter fun br => 3 ≤ b.brTimeout br

/-- The distant clients of the brokers that expire. -/
def DdBroker.lost {H : Type} (b : DdBroker H) : List DistClient :=
  b.distCliHt.nodes.filter fun d => b.expired.any fun br => br.sockid = d.broker

omit [DecidableEq H] in
/-- Brokers have different socket ids, as they have one cookie. -/
theorem RegistryOk.sockid_nodup (hok : TablesOk env b) (h : RegistryOk b) :
    (b.lclBrHt.nodes.map LocalBroker.sockid).Nodup := by
  refine hok.brNodup.of_map.map_on fun br hbr br' hbr' hs => ?_
  refine List.inj_on_of_nodup_map hok.brNodup hbr hbr' ?_
  rw [LocalBroker.authKey, LocalBroker.authKey, hs, h.cookie br hbr, h.cookie br' hbr']

omit [DecidableEq H] in
theorem mem_lost {d : DistClient} : d ∈ b.lost ↔
    d ∈ b.distCliHt.nodes ∧ ∃ br ∈ b.lclBrHt.nodes, 3 ≤ b.brTimeout br ∧ br.sockid = d.broker := by
  simp [DdBroker.lost, DdBroker.expired]

omit [DecidableEq H] in
/-- The clients that are lost are withdrawn once each, in some order. -/
theorem lost_withdrawn (hnd : (b.lclBrHt.nodes.map LocalBroker.sockid).Nodup) :
    (b.expired.flatMap fun br => (b.distCliHt.nodes.filter fun d => d.broker = br.sockid).flatMap
      fun d => delCliUp b d.name).Perm (b.lost.flatMap fun d => delCliUp b d.name) := by
  have hexp : (b.expired.map LocalBroker.sockid).Nodup :=
    hnd.sublist (List.filter_sublist.map LocalBroker.sockid)
  have h := (flatMap_filter_perm DistClient.broker b.distCliHt.nodes hexp).flatMap_right
    fun d => delCliUp b d.name
  rw [List.flatMap_map, List.flatMap_assoc] at h
  convert h
  refine List.filter_congr fun d _ => ?_
  rw [Bool.eq_iff_iff]
  simp

omit [DecidableEq H] in
/-- **The tick of the brokers**: those that expire go with the clients that are lost. -/
theorem sCheckBrTimeout_eq (hnd : (b.lclBrHt.nodes.map LocalBroker.sockid).Nodup) :
    ∃ f sends, sCheckBrTimeout b = .done { b with
        distCliHt := b.distCliHt.filter fun e => e.2 ∉ b.lost
        lclBrHt := b.lclBrHt.filter fun e => e.2 ∉ b.expired
        brTimeout := f } sends ∧ sends.Perm (b.lost.flatMap fun d => delCliUp b d.name) := by
  obtain ⟨f, hf⟩ := checkBrokers_eq (b := b) hnd
  have hdist : (b.distCliHt.filter fun e => decide (∀ np ∈ b.lclBrHt.nodes, 3 ≤ b.brTimeout np →
      e.2.broker ≠ np.sockid)) = b.distCliHt.filter fun e => e.2 ∉ b.lost := by
    refine List.filter_congr fun e he => ?_
    rw [decide_eq_decide, mem_lost]
    have hmem : e.2 ∈ b.distCliHt.nodes := List.mem_map_of_mem he
    simp only [hmem, true_and, not_exists, not_and]
    exact forall₃_congr fun np _ _ => ne_comm
  have hbr : (b.lclBrHt.filter fun e => decide (e.2 ∈ b.lclBrHt.nodes → b.brTimeout e.2 < 3)) =
      b.lclBrHt.filter fun e => e.2 ∉ b.expired := by
    refine List.filter_congr fun e he => ?_
    have hmem : e.2 ∈ b.lclBrHt.nodes := List.mem_map_of_mem he
    simp [DdBroker.expired, hmem]
  rw [hdist, hbr] at hf
  exact ⟨f, _, hf, lost_withdrawn hnd⟩

/-- **Distant clients hang under brokers that are registered**, and go with them: the brokers that
expire leave with exactly their clients, each withdrawn once unless this is the root, and everything
else stays. -/
theorem distant_clients_hang (hinj : Function.Injective env.xxh32) {cfg : Config}
    (h : Reachable env cfg b) :
    (∀ d ∈ b.distCliHt.nodes, ∃ br ∈ b.lclBrHt.nodes, br.sockid = d.broker) ∧
    ∃ f sends, step env b .checkBrTimeout = .done { b with
        distCliHt := b.distCliHt.filter fun e => e.2 ∉ b.lost
        lclBrHt := b.lclBrHt.filter fun e => e.2 ∉ b.expired
        brTimeout := f } sends ∧
      sends.Perm (if b.state = .root then [] else b.lost.map fun d =>
        .dsock (ddMsg .unregdcli [b.keys.cookie.1, d.name.bytes])) := by
  have hreg := h.registryOk hinj
  refine ⟨fun d hd => hreg.hung d.name d.broker ⟨d, hd, rfl, rfl⟩, ?_⟩
  obtain ⟨f, sends, hstep, hsends⟩ := sCheckBrTimeout_eq (hreg.sockid_nodup (h.tablesOk hinj))
  refine ⟨f, sends, hstep, hsends.trans (List.Perm.of_eq ?_)⟩
  by_cases hroot : b.state = .root
  · simp [delCliUp, hroot]
  · simp only [delCliUp, ne_eq, hroot, not_false_eq_true, if_true, if_false, List.map_eq_flatMap]

/-- The `CHALLOK` of a lower broker. -/
def joinEvent (sockid : Frame) : Event :=
  .router (challokMsg sockid demoKeys.cookie demoKeys.hash (text "broker"))

/-- A message of a lower broker about a name. -/
def nameEvent (cmd : Cmd) (sockid : Frame) (name : CStr) : Event :=
  .router (sockid :: ddMsg cmd [demoKeys.cookie.1, name.bytes, le32 0])

/-- A broker announces a client and is silent for three ticks. -/
def silentRun : List Event :=
  [.checkBrTimeout, .checkBrTimeout, .checkBrTimeout, nameEvent .adddcl [9] (text "a.x"),
    joinEvent [9]]

theorem silentRun_expires : (runEvents plainEnv (ddBrokerNew _ lowerConfig) silentRun).map
    DdBroker.lost = some [⟨text "a.x", [9], 0⟩] := by
  decide

/-- A broker that expires with its client. -/
theorem distant_clients_hang_silentRun : ∃ b : DdBroker (List UInt8),
    Reachable plainEnv lowerConfig b ∧ b.lost = [⟨text "a.x", [9], 0⟩] ∧
    (∀ d ∈ b.distCliHt.nodes, ∃ br ∈ b.lclBrHt.nodes, br.sockid = d.broker) ∧
    ∃ f sends, step plainEnv b .checkBrTimeout = .done { b with
        distCliHt := b.distCliHt.filter fun e => e.2 ∉ b.lost
        lclBrHt := b.lclBrHt.filter fun e => e.2 ∉ b.expired
        brTimeout := f } sends ∧
      sends.Perm (if b.state = .root then [] else b.lost.map fun d =>
        .dsock (ddMsg .unregdcli [b.keys.cookie.1, d.name.bytes])) := by
  obtain ⟨b, hb, hlost⟩ := Option.map_eq_some_iff.mp silentRun_expires
  have hreach : Reachable plainEnv lowerConfig b := ⟨silentRun, .of_runEvents hb⟩
  exact ⟨b, hreach, hlost, distant_clients_hang (fun _ _ h => h) hreach⟩

/-! ## What takes an entry away -/

/-- **The events that may take an entry**: its broker withdraws the name, its broker expires, or the
higher broker refuses the name. -/
def Removes (env : Env H) (b : DdBroker H) (e : Event) (d : DistClient) : Prop :=
  (∃ msg cookie nameFrame rest, e = .router msg ∧
    routerCmd msg = some (d.broker, .unregdcli, cookie :: nameFrame :: rest) ∧
    fromBroker env b d.broker cookie ∧ CStr.ofBytes nameFrame = d.name) ∨
  (e = .checkBrTimeout ∧ ∃ br ∈ b.expired, br.sockid = d.broker) ∨
  ∃ msg, e = .dealer msg ∧ refusalOf msg = some d.name

/-- **The entries stay as they are** unless the event may take them. -/
def Lawful (env : Env H) (b : DdBroker H) (e : Event) (b' : DdBroker H) : Prop :=
  ∀ d ∈ b.distCliHt.nodes, (d ∈ b'.distCliHt.nodes ∨ Removes env b e d) ∧
    ∀ d' ∈ b'.distCliHt.nodes, d'.name = d.name → d' = d

/-- Whether an `UNREGDCLI` of a registered broker finds no entry of another one. -/
def ownEntry (env : Env H) (b : DdBroker H) (e : Event) : Bool :=
  match request env b e with
  | .delDist s name => (hashtableHasDistNode env b name).all fun d => d.broker = s
  | _ => true

/-- The requests that change `dist_cli_ht`. -/
def Request.aboutDist : Request → Bool
  | .addDist .. | .delDist .. | .dropDist _ | .expireBrokers => true
  | _ => false

/-- The other requests leave the distant clients. -/
theorem Request.effect_distCliHt {r : Request} (hr : r.aboutDist = false)
    (heff : r.effect env b = some b') : b'.distCliHt = b.distCliHt := by
  cases r with
  | none =>
    cases heff
    rfl
  | register s hash ten clientName =>
    obtain ⟨o, ho, rfl⟩ := Option.map_eq_some_iff.mp heff
    cases o with
    | none => rfl
    | some b₁ =>
      obtain ⟨-, -, -, -, rfl⟩ := insertLocalClient_eq ho
      rfl
  | sub ln s key =>
    obtain ⟨⟨b₁, n⟩, hb, heff⟩ := Option.bind_eq_some_iff.mp heff
    obtain ⟨⟨root, n⟩, -, rfl⟩ := Option.map_eq_some_iff.mp heff
    obtain ⟨ht, rfl⟩ := insertSubscription_frame hb
    rfl
  | unsub ln s key =>
    obtain ⟨⟨b₁, n⟩, hb, rfl⟩ := Option.map_eq_some_iff.mp heff
    obtain rfl | ⟨root, rfl⟩ := removeSubscription_eq hb <;> rfl
  | leave ln s =>
    obtain ⟨root, ht, l, r, rfl⟩ := removeClient_eq heff
    rfl
  | expel ln =>
    obtain ⟨root, ht, l, r, rfl⟩ := removeClient_eq heff
    rfl
  | expire =>
    obtain ⟨sends, hcheck⟩ := Outcome.broker_eq_some.mp heff
    refine checkClients_induction (P := fun b₁ => b₁.distCliHt = b.distCliHt)
      (fun _ _ h₁ => h₁) ?_ rfl hcheck
    intro b₁ np b₂ sends₂ h₁ hu
    obtain ⟨-, rfl, -⟩ | ⟨c, -, hrem, -⟩ := sCbUnregCli_eq_done hu
    · exact h₁
    · obtain ⟨root, ht, l, r, rfl⟩ := removeClient_eq hrem
      exact h₁
  | addBroker s cookie =>
    obtain ⟨o, -, rfl⟩ := Option.map_eq_some_iff.mp heff
    split <;> rfl
  | addDist s name dist => cases hr
  | delDist s name => cases hr
  | dropDist name => cases hr
  | expireBrokers => cases hr

/-- Entries that stay, or go as they may. -/
theorem lawful_of_subset (hok : TablesOk env b)
    (hsub : ∀ d ∈ b'.distCliHt.nodes, d ∈ b.distCliHt.nodes)
    (hrem : ∀ d ∈ b.distCliHt.nodes, d ∈ b'.distCliHt.nodes ∨ Removes env b e d) :
    Lawful env b e b' := fun d hd => ⟨hrem d hd, fun d' hd' hn =>
  List.inj_on_of_nodup_map hok.distNodup (hsub d' hd') hd (congrArg CStr.bytes hn)⟩

/-- A name that is taken out takes no other. -/
theorem lawful_of_remove (hinj : Function.Injective env.xxh32) (hok : TablesOk env b) {name : CStr}
    (hb : b'.distCliHt = if (hashtableHasDistNode env b name).isSome then
      (hashtableRemoveDistNode env b name).distCliHt else b.distCliHt)
    (hrem : ∀ d ∈ b.distCliHt.nodes, d.name = name → Removes env b e d) : Lawful env b e b' := by
  have hmem : ∀ d, d ∈ b'.distCliHt.nodes ↔ d ∈ b.distCliHt.nodes ∧ d.name ≠ name := by
    intro d
    rw [hb]
    split
    · exact mem_removeDistNode hinj hok
    · next hnone =>
      refine ⟨fun hd => ⟨hd, fun hn => hnone ?_⟩, fun hd => hd.1⟩
      rw [(hok.hasDist_eq_some hinj).mpr ⟨hd, hn⟩, Option.isSome_some]
  refine lawful_of_subset hok (fun d hd => ((hmem d).mp hd).1) fun d hd => ?_
  by_cases hn : d.name = name
  · exact Or.inr (hrem d hd hn)
  · exact Or.inl ((hmem d).mpr ⟨hd, hn⟩)

/-- The entry a lower broker withdraws may go when it is its own. -/
theorem removes_iff_own {s : Frame} {name : CStr} {d : DistClient}
    (hasked : (Request.delDist s name).Asked env b e) (hd : d.name = name) :
    Removes env b e d ↔ d.broker = s := by
  obtain ⟨msg, cookie, nameFrame, rest, rfl, hm, hfrom, rfl⟩ := hasked
  constructor
  · rintro (⟨_, _, _, _, h, hm', -⟩ | ⟨h, -⟩ | ⟨_, h, -⟩)
    · cases h
      rw [hm] at hm'
      exact (Prod.mk.inj (Option.some.inj hm')).1.symm
    · cases h
    · cases h
  · rintro rfl
    exact Or.inl ⟨msg, cookie, nameFrame, rest, rfl, hm, hfrom, hd.symm⟩

/-- **A step is lawful just when its `UNREGDCLI` finds no entry of another broker.** -/
theorem lawful_iff (hinj : Function.Injective env.xxh32) (hok : TablesOk env b)
    (hreg : RegistryOk b)
    (hstep : step env b e = .done b' sends) : Lawful env b e b' ↔ ownEntry env b e := by
  obtain ⟨b₁, heff, hsame⟩ := step_effect hstep
  have hasked : (request env b e).Asked env b e := asked b e
  have hgranted : (request env b e).Granted env b := granted b e
  unfold ownEntry
  generalize request env b e = r at heff hasked hgranted
  by_cases hr : r.aboutDist = false
  · have hdist := hsame.distCliHt.trans (Request.effect_distCliHt hr heff)
    have hlawful : Lawful env b e b' := lawful_of_subset hok (fun d hd => hdist ▸ hd)
      fun d hd => Or.inl (hdist ▸ hd)
    cases r with
    | delDist s name => cases hr
    | _ => exact iff_of_true hlawful rfl
  · cases r with
    | addDist s name dist =>
      have hmem : ∀ d, d ∈ b'.distCliHt.nodes ↔ d ∈ b.distCliHt.nodes ∨ d = ⟨name, s, dist⟩ := by
        intro d
        rw [hsame.distCliHt, ← Option.some.inj heff, hashtableInsertDistNode, Lfht.nodes_add,
          List.mem_append, List.mem_singleton]
      refine iff_of_true (fun d hd => ⟨Or.inl ((hmem d).mpr (Or.inl hd)), fun d' hd' hn => ?_⟩) rfl
      obtain hd' | rfl := (hmem d').mp hd'
      · exact List.inj_on_of_nodup_map hok.distNodup hd' hd (congrArg CStr.bytes hn)
      · -- the name was free
        have hfound := (hok.hasDist_eq_some hinj).mpr ⟨hd, hn.symm⟩
        rw [show hashtableHasDistNode env b name = none from hgranted] at hfound
        cases hfound
    | delDist s name =>
      have hb : b'.distCliHt = if (hashtableHasDistNode env b name).isSome then
          (hashtableRemoveDistNode env b name).distCliHt else b.distCliHt := by
        rw [hsame.distCliHt, ← Option.some.inj heff]
        exact apply_ite DdBroker.distCliHt _ _ _
      simp only [Option.all_eq_true, decide_eq_true_eq, hok.hasDist_eq_some hinj]
      constructor
      · rintro h d ⟨hd, hn⟩
        rw [← removes_iff_own hasked hn]
        refine (h d hd).1.resolve_left fun hstay => ?_
        rw [hb, if_pos (Option.isSome_iff_exists.mpr
          ⟨d, (hok.hasDist_eq_some hinj).mpr ⟨hd, hn⟩⟩)] at hstay
        exact ((mem_removeDistNode hinj hok).mp hstay).2 hn
      · exact fun h => lawful_of_remove hinj hok hb fun d hd hn =>
          (removes_iff_own hasked hn).mpr (h d ⟨hd, hn⟩)
    | dropDist name =>
      have hb : b'.distCliHt = if (hashtableHasDistNode env b name).isSome then
          (hashtableRemoveDistNode env b name).distCliHt else b.distCliHt := by
        rw [hsame.distCliHt, ← Option.some.inj heff]
        exact apply_ite DdBroker.distCliHt _ _ _
      obtain ⟨msg, rfl, hrefusal⟩ := hasked
      exact iff_of_true (lawful_of_remove hinj hok hb fun d hd hn =>
        Or.inr (Or.inr ⟨msg, rfl, hn ▸ hrefusal⟩)) rfl
    | expireBrokers =>
      obtain ⟨f, _, hb, -⟩ := sCheckBrTimeout_eq (hreg.sockid_nodup hok)
      have hdist : b'.distCliHt = b.distCliHt.filter fun e => e.2 ∉ b.lost := by
        rw [hsame.distCliHt]
        simp only [Request.effect, hb, Outcome.broker, Option.some.injEq] at heff
        rw [← heff]
      refine iff_of_true (lawful_of_subset hok (fun d hd => ?_) fun d hd => ?_) rfl
      · rw [hdist, nodes_filter b.distCliHt fun d => d ∉ b.lost] at hd
        exact List.mem_of_mem_filter hd
      · by_cases hlost : d ∈ b.lost
        · obtain ⟨-, br, hbr, hold, hs⟩ := mem_lost.mp hlost
          exact Or.inr (Or.inr (Or.inl ⟨hasked, br,
            List.mem_filter.mpr ⟨hbr, decide_eq_true hold⟩, hs⟩))
        · rw [hdist, nodes_filter b.distCliHt fun d => d ∉ b.lost]
          exact Or.inl (List.mem_filter.mpr ⟨hd, decide_eq_true hlost⟩)
    | _ => exact absurd rfl hr

/-- **The law of a run** — every step of it is lawful. -/
def LawfulRun (env : Env H) (cfg : Config) (es : List Event) : Prop :=
  ∀ e es' b b' sends, e :: es' <:+ es → Run env cfg es' b → step env b e = .done b' sends →
    Lawful env b e b'

/-- **Distant clients go by their broker, its expiry or a refusal** in the runs, and only those,
where no lower broker withdraws a name that another one announced. -/
theorem distant_clients_lawful_iff (hinj : Function.Injective env.xxh32) {cfg : Config}
    {es : List Event} (h : Run env cfg es b) :
    LawfulRun env cfg es ↔ meets env (ownEntry env) (ddBrokerNew H cfg) es := by
  induction h with
  | init =>
    refine iff_of_true (fun e es' b b' sends hsuf => ?_) rfl
    exact absurd (List.suffix_nil.mp hsuf) (List.cons_ne_nil e es')
  | @step es b b' e sends hrun hen hs ih =>
    have hreach : Reachable env cfg b := ⟨es, hrun⟩
    have hlast := lawful_iff hinj (hreach.tablesOk hinj) (hreach.registryOk hinj) hs
    rw [meets, hrun.runEvents, Bool.and_eq_true, ← ih, Option.all_some, ← hlast]
    constructor
    · intro h
      exact ⟨fun e₁ es₁ b₁ b₁' sends₁ hsuf => h e₁ es₁ b₁ b₁' sends₁
        (hsuf.trans (List.suffix_cons e es)), h e es b b' sends (List.suffix_refl _) hrun hs⟩
    · rintro ⟨hall, hlaw⟩ e₁ es₁ b₁ b₁' sends₁ hsuf hrun₁ hs₁
      obtain heq | hsuf := List.suffix_cons_iff.mp hsuf
      · obtain ⟨rfl, rfl⟩ := List.cons.inj heq
        have hb : b₁ = b := Option.some.inj (hrun₁.runEvents.symm.trans hrun.runEvents)
        subst hb
        rw [hs] at hs₁
        cases hs₁
        exact hlaw
      · exact hall e₁ es₁ b₁ b₁' sends₁ hsuf hrun₁ hs₁

/-- The broker that expires takes its own client. -/
theorem distant_clients_lawful_silentRun :
    LawfulRun plainEnv lowerConfig (.checkBrTimeout :: silentRun) := by
  have hsome : (runEvents plainEnv (ddBrokerNew _ lowerConfig)
    (.checkBrTimeout :: silentRun)).isSome := by
    decide
  obtain ⟨b, hb⟩ := Option.isSome_iff_exists.mp hsome
  exact (distant_clients_lawful_iff (fun _ _ h => h) (.of_runEvents hb)).mpr (by decide)

/-- Two brokers announce the same name, the second of them in vain. -/
def rivalRun : List Event :=
  [nameEvent .adddcl [8] (text "a.x"), nameEvent .adddcl [9] (text "a.x"), joinEvent [8],
    joinEvent [9]]

theorem rivalRun_withdrawn :
    ((runEvents plainEnv (ddBrokerNew _ lowerConfig) rivalRun).bind fun b =>
    (step plainEnv b (nameEvent .unregdcli [8] (text "a.x"))).broker.map fun _ =>
      ownEntry plainEnv b (nameEvent .unregdcli [8] (text "a.x"))) = some false := by
  decide

/-- **A broker whose announcement was refused withdraws the name of another one.** -/
theorem not_distant_clients_lawful : ¬ ∀ (H : Type) [DecidableEq H] (env : Env H),
    Function.Injective env.xxh32 → ∀ (cfg : Config) (es : List Event) (b : DdBroker H),
    Run env cfg es b → LawfulRun env cfg es := by
  intro hall
  obtain ⟨b, hb, hown⟩ := Option.bind_eq_some_iff.mp rivalRun_withdrawn
  obtain ⟨b', hb', hown⟩ := Option.map_eq_some_iff.mp hown
  obtain ⟨sends, hs⟩ := Outcome.broker_eq_some.mp hb'
  have hrun : Run plainEnv lowerConfig rivalRun b := .of_runEvents hb
  have hreach : Reachable plainEnv lowerConfig b := ⟨rivalRun, hrun⟩
  have hlaw := hall _ plainEnv Function.injective_id lowerConfig
    (nameEvent .unregdcli [8] (text "a.x") :: rivalRun) b' (.step hrun rfl hs) _ _ b b' sends
    (List.suffix_refl _) hrun hs
  rw [lawful_iff Function.injective_id (hreach.tablesOk Function.injective_id)
    (hreach.registryOk Function.injective_id) hs, hown] at hlaw
  cases hlaw

end DoubleDecker
