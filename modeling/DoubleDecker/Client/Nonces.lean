import DoubleDecker.Broker.Links
import DoubleDecker.Client.Passes
import DoubleDecker.Keys.Nonce

/-!
# Client/Nonces — the nonces of a run

`dd_publish`, `dd_notify`, `s_cb_addbr` and `s_cb_addlcl` call `nonce_increment` first and encrypt
with what it left, whether the encryption succeeds and the message is sent or not.  No two
encryptions of one client, or of one broker, use the same nonce (`nonces_distinct`).
-/

namespace DoubleDecker

variable {H : Type}

/-- The surroundings with the `nonce_increment` of the source. -/
def Env.counting (env : Env H) : Env H := { env with nonceIncrement := DoubleDecker.nonceIncrement }

/-! ## A client -/

/-- The nonce a call of the application encrypts with. -/
def ClientEvent.takenNonce (env : Env H) (self : DdClient) : ClientEvent → Option Frame
  | .publish topic msg =>
    if (publishKey self.keys topic).isSome && fitsInt msg then
      some (env.nonceIncrement self.nonce) else none
  | .notify _ msg => if fitsInt msg then some (env.nonceIncrement self.nonce) else none
  | _ => none

/-- What an event does when `crypto_box_easy_afternm` fails: the nonce was incremented, and the call
returns -1. -/
def sealFails (env : Env H) (self : DdClient) (e : ClientEvent) : Option DdClient :=
  (e.takenNonce env self).map fun nonce => { self with nonce := nonce }

/-- The state after some events, the last one first, each with whether an encryption it asks for
succeeds. -/
def sealRun (env : Env H) (self : DdClient) : List (ClientEvent × Bool) → Option DdClient
  | [] => some self
  | x :: xs => (sealRun env self xs).bind fun self =>
    if x.1.enabled self then
      if x.2 then (clientStep env self x.1).map Handled.self else sealFails env self x.1
    else none

/-- The nonces of the encryptions, the last one first. -/
def sealNonces (env : Env H) (self : DdClient) : List (ClientEvent × Bool) → List Frame
  | [] => []
  | x :: xs =>
    ((sealRun env self xs).bind (x.1.takenNonce env)).toList ++ sealNonces env self xs

section

variable {env : Env H} {c : DdClient}

/-- A nonce that is taken is the next one. -/
theorem ClientEvent.eq_of_takenNonce {e : ClientEvent} {n : Frame}
    (h : e.takenNonce env c = some n) : n = env.nonceIncrement c.nonce := by
  unfold takenNonce at h
  split at h
  · split at h
    · exact (Option.some.inj h).symm
    · cases h
  · split at h
    · exact (Option.some.inj h).symm
    · cases h
  · cases h

/-- **The nonce after an event** is the one it encrypted with, or the one before. -/
theorem clientStep_nonce {e : ClientEvent} {h : Handled} (hs : clientStep env c e = some h) :
    h.self.nonce = (e.takenNonce env c).getD c.nonce := by
  cases e with
  | subscribe topic scope =>
    cases hs
    rfl
  | unsubscribe topic scope =>
    cases hs
    rfl
  | publish topic message =>
    obtain ⟨hkey, rfl⟩ | ⟨key, hkey, hfits, rfl⟩ := clientStep_publish hs
    · simp [ClientEvent.takenNonce, hkey]
    · simp [ClientEvent.takenNonce, hkey, hfits, sealFrame]
  | notify target message =>
    obtain ⟨hfits, rfl⟩ := clientStep_notify hs
    simp [ClientEvent.takenNonce, hfits, sealFrame]
  | message msg =>
    rw [clientStep] at hs
    cases hcmd : dealerCmd msg with
    | none =>
      rw [sOnClientMsg_of_dealerCmd_none hcmd hs]
      rfl
    | some p =>
      obtain ⟨cmd, body⟩ := p
      rw [sOnClientMsg_of_dealerCmd hcmd] at hs
      exact (onClientCmd_obeys hs).nonce
  | askRegistration =>
    cases hs
    rfl
  | heartbeat =>
    cases hs
    unfold sClientHeartbeat
    simp only
    split <;> rfl
  | ping =>
    cases hs
    rfl

/-- **What is sent was encrypted with the nonce that was taken**, and starts with it. -/
theorem sends_of_takenNonce {e : ClientEvent} {n : Frame} (hn : e.takenNonce env c = some n)
    {h : Handled} (hs : clientStep env c e = some h) :
    ∀ m ∈ h.sends, ∃ plain key front, m = front ++ [n ++ env.boxEasyAfternm plain n key] := by
  have hnext := ClientEvent.eq_of_takenNonce hn
  subst hnext
  intro m hm
  cases e with
  | publish topic message =>
    obtain ⟨-, rfl⟩ | ⟨key, -, -, rfl⟩ := clientStep_publish hs
    · cases hm
    · simp only at hm
      split at hm
      · exact ⟨message, key, [_, _, _, _, _], List.mem_singleton.mp hm⟩
      · cases hm
  | notify target message =>
    obtain ⟨-, rfl⟩ := clientStep_notify hs
    simp only at hm
    split at hm
    · exact ⟨message, _, [_, _, _, _], List.mem_singleton.mp hm⟩
    · cases hm
  | _ => cases hn

/-- **The nonces of a client** are taken one after the other. -/
theorem taken_sealRun {c₀ : DdClient} {xs : List (ClientEvent × Bool)}
    (h : sealRun env.counting c₀ xs = some c) :
    Taken c₀.nonce (sealNonces env.counting c₀ xs) c.nonce := by
  induction xs generalizing c with
  | nil =>
    cases h
    exact .start
  | cons x xs ih =>
    obtain ⟨c₁, h₁, h⟩ := Option.bind_eq_some_iff.mp h
    have htaken := ih h₁
    -- succeed or fail, the nonce is the one that was taken
    have hnonce : c.nonce = (x.1.takenNonce env.counting c₁).getD c₁.nonce := by
      split at h
      · split at h
        · obtain ⟨handled, hs, rfl⟩ := Option.map_eq_some_iff.mp h
          exact clientStep_nonce hs
        · obtain ⟨n, hn, rfl⟩ := Option.map_eq_some_iff.mp h
          rw [hn]
          rfl
      · cases h
    rw [sealNonces, h₁, Option.bind_some, hnonce]
    cases hnext : x.1.takenNonce env.counting c₁ with
    | none => exact htaken
    | some n =>
      rw [ClientEvent.eq_of_takenNonce hnext]
      exact htaken.next

end

/-! ## A broker -/

/-- The nonces of the challenges of a broker, the last one first. -/
def challengeNonces [DecidableEq H] (env : Env H) (self : DdBroker H) : List Event → List Frame
  | [] => []
  | e :: es =>
    ((runEvents env self es).bind (takenNonce env · e)).toList ++ challengeNonces env self es

/-- **The nonces of a broker** are taken one after the other. -/
theorem taken_run [DecidableEq H] {env : Env H} {cfg : Config} {es : List Event} {b : DdBroker H}
    (h : Run env.counting cfg es b) :
    Taken cfg.nonce (challengeNonces env.counting (ddBrokerNew H cfg) es) b.nonce := by
  induction h with
  | init => exact .start
  | @step es self self' e sends hrun hen hs ih =>
    rw [challengeNonces, hrun.runEvents, Option.bind_some, step_takenNonce hs]
    cases hnext : takenNonce env.counting self e with
    | none => exact ih
    | some n =>
      rw [eq_of_takenNonce hnext]
      exact ih.next

/-! ## All nonces -/

/-- **Nonces never repeat** — `nonce_increment` adds one modulo `2 ^ (8 * n)` to a nonce of `n`
bytes, for 24 bytes in words as byte by byte, and so the nonces of fewer than `2 ^ 192` encryptions
of one client or of one broker are distinct. -/
theorem nonces_distinct [DecidableEq H] (env : Env H) :
    (∀ n : Frame, leNat (nonceIncrement n) = (leNat n + 1) % 2 ^ (8 * n.length)) ∧
    (∀ n : Frame, n.length = nonceBytes → nonceIncrementAsm n = nonceIncrement n) ∧
    (∀ clientName keys cookie nonce xs c, nonce.length = nonceBytes →
      sealRun env.counting (ddNew clientName keys cookie nonce) xs = some c →
      (sealNonces env.counting (ddNew clientName keys cookie nonce) xs).length < 2 ^ 192 →
      (sealNonces env.counting (ddNew clientName keys cookie nonce) xs).Nodup) ∧
    ∀ cfg es b, cfg.nonce.length = nonceBytes → Run env.counting cfg es b →
      (challengeNonces env.counting (ddBrokerNew H cfg) es).length < 2 ^ 192 →
      (challengeNonces env.counting (ddBrokerNew H cfg) es).Nodup :=
  ⟨leNat_nonceIncrement, fun _ h => nonceIncrementAsm_eq h,
    fun _ _ _ _ _ _ hlen hrun hfew => (taken_sealRun hrun).nodup hlen hfew,
    fun _ _ _ hlen hrun hfew => (taken_run hrun).nodup hlen hfew⟩

/-- A client publishes, fails to notify and publishes again. -/
def threeSeals : List (ClientEvent × Bool) :=
  [(.publish (text "y") [1], true), (.notify (text "z") [1], false),
    (.publish (text "y") [1], true)]

/-- A client asks for a challenge twice. -/
def twoChallenges : List Event :=
  [.router ([1] :: ddMsg .addlcl [CStr.ascii "hashA"]),
    .router ([1] :: ddMsg .addlcl [CStr.ascii "hashA"])]

/-- The configuration of the demonstration with a nonce of 24 bytes. -/
def zeroNonceConfig : Config := { demoConfig with nonce := List.replicate nonceBytes 0 }

/-- Three encryptions of a client and two of a broker. -/
theorem nonces_distinct_few :
    nonceIncrementAsm (List.replicate 24 255) = nonceIncrement (List.replicate 24 255) ∧
    (sealNonces plainEnv.counting (ddNew (text "x") ⟨false, text "hashA", [], [], [], []⟩
      (cookieOf 0) (List.replicate 24 255)) threeSeals).Nodup ∧
    (challengeNonces plainEnv.counting (ddBrokerNew _ zeroNonceConfig) twoChallenges).Nodup := by
  obtain ⟨-, hasm, hclient, hbroker⟩ := nonces_distinct plainEnv
  have hseals : (sealRun plainEnv.counting (ddNew (text "x") ⟨false, text "hashA", [], [], [], []⟩
      (cookieOf 0) (List.replicate 24 255)) threeSeals).isSome := by decide
  have hrun : (runEvents plainEnv.counting (ddBrokerNew _ zeroNonceConfig)
    twoChallenges).isSome := by
    decide
  obtain ⟨c, hc⟩ := Option.isSome_iff_exists.mp hseals
  obtain ⟨b, hb⟩ := Option.isSome_iff_exists.mp hrun
  exact ⟨hasm _ rfl, hclient _ _ _ _ _ c rfl hc (by decide),
    hbroker _ _ b rfl (.of_runEvents hb) (by decide)⟩

end DoubleDecker
