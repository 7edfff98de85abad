import DoubleDecker.Library.CString
import DoubleDecker.Library.Lfht
import DoubleDecker.Library.Zloop
import DoubleDecker.Trie.Node

/-!
# Broker/State — the data of a broker

The frames and codes of the protocol, the key file, the tables and the state of one broker
(`dd_broker_t`), and what a handler leaves behind: the new state and the messages it sent, or the
messages it sent before it read memory it must not read.

The hash, the nonces and the `crypto_box` functions are parameters (`Env`).
-/

namespace DoubleDecker

/-! ## Frames -/

/-- The memory image of a 32-bit integer. -/
def le32 (n : UInt32) : Frame :=
  [n.toUInt8, (n >>> 8).toUInt8, (n >>> 16).toUInt8, (n >>> 24).toUInt8]

/-- `*(uint32_t *)zframe_data(f)`; a frame of less than four bytes is read past its end. -/
def readU32 : Frame → Option UInt32
  | a :: b :: c :: d :: _ =>
    some (a.toUInt32 ||| b.toUInt32 <<< 8 ||| c.toUInt32 <<< 16 ||| d.toUInt32 <<< 24)
  | _ => none

/-- The memory image of a `uint64_t` cookie. -/
abbrev Cookie := { c : Frame // c.length = 8 }

/-- `*(uint64_t *)zframe_data(f)`. -/
def readCookie (f : Frame) : Option Cookie :=
  if h : 8 ≤ f.length then some ⟨f.take 8, by simp [h]⟩ else none

/-- `zmsg_popstr`; `none` is the `NULL` returned for a message without frames. -/
def zmsgPopstr : List Frame → Option CStr × List Frame
  | [] => (none, [])
  | f :: msg => (some (CStr.ofBytes f), msg)

/-- `zmsg_pop`. -/
def zmsgPop : List Frame → Option Frame × List Frame
  | [] => (none, [])
  | f :: msg => (some f, msg)

/-! ## The protocol -/

/-- `DD_VERSION`. -/
def ddVersion : UInt32 := 0x0d0d0003

/-- The commands of `protocol.h` that the broker sends or receives. -/
inductive Cmd where
  | send | forward | ping | addlcl | adddcl | addbr | unreg | unregdcli | unregbr | data | error
  | regok | pong | chall | challok | pub | sub | unsub | subok
  deriving DecidableEq

/-- The code of a command. -/
def Cmd.code : Cmd → UInt32
  | .send => 0 | .forward => 1 | .ping => 2 | .addlcl => 3 | .adddcl => 4 | .addbr => 5
  | .unreg => 6 | .unregdcli => 7 | .unregbr => 8 | .data => 9 | .error => 10 | .regok => 11
  | .pong => 12 | .chall => 13 | .challok => 14 | .pub => 15 | .sub => 16 | .unsub => 17
  | .subok => 23

/-- The commands in the order of their codes. -/
def Cmd.all : List Cmd :=
  [.send, .forward, .ping, .addlcl, .adddcl, .addbr, .unreg, .unregdcli, .unregbr, .data, .error,
    .regok, .pong, .chall, .challok, .pub, .sub, .unsub, .subok]

/-- The command a code stands for. -/
def Cmd.ofCode (n : UInt32) : Option Cmd := Cmd.all.find? fun c => c.code = n

/-- `&dd_cmd_…, 4`. -/
def Cmd.frame (c : Cmd) : Frame := le32 c.code

/-- `DD_ERROR_REGFAIL`. -/
def ddErrorRegfail : UInt32 := 1

/-- `DD_ERROR_NODST`. -/
def ddErrorNodst : UInt32 := 2

/-- `DD_ERROR_VERSION`. -/
def ddErrorVersion : UInt32 := 3

/-- The frames of a message: the version, the command and what follows. -/
def ddMsg (c : Cmd) (body : List Frame) : List Frame := le32 ddVersion :: c.frame :: body

@[simp] theorem Cmd.ofCode_code (c : Cmd) : Cmd.ofCode c.code = some c := by cases c <;> decide

@[simp] theorem readU32_frame (c : Cmd) : readU32 c.frame = some c.code := by cases c <;> decide

@[simp] theorem readU32_ddVersion : readU32 (le32 ddVersion) = some ddVersion := by decide

@[simp] theorem readCookie_cookie (c : Cookie) : readCookie c.1 = some c := by
  have h : (8 : Nat) ≤ c.1.length := c.2.ge
  rw [readCookie, dif_pos h, Option.some.injEq]
  exact Subtype.ext (List.take_of_length_le c.2.le)

/-! ## Texts -/

/-- `"public"`. -/
def publicName : CStr := ⟨CStr.ascii "public", by decide⟩

/-- `"public."`. -/
def publicDot : CStr := ⟨CStr.ascii "public.", by decide⟩

/-- `"."`. -/
def dotStr : CStr := ⟨[46], by decide⟩

/-- `"/"`. -/
def slashStr : CStr := ⟨[47], by decide⟩

/-- The byte `'.'`. -/
def dot : UInt8 := 46

/-- The byte `'/'`. -/
def slash : UInt8 := 47

/-- `snprintf(buf, n + 1, "%s.%s", tenant, name)`. -/
def joined (n : Nat) (tenant name : CStr) : CStr := (tenant ++ dotStr ++ name).truncate n

/-! ## The key file -/

/-- `ddtenant_t`. -/
structure DdTenant where
  name : CStr
  cookie : Cookie
  boxk : Frame
  deriving DecidableEq

/-- `ddbrokerkeys_t`: the tenant names, the tenants by the hash of their keys, and what brokers
share. -/
structure DdBrokerKeys where
  tenants : List CStr
  tenantkeys : List (CStr × DdTenant)
  hash : CStr
  cookie : Cookie
  ddboxk : Frame

/-- `zhash_lookup(self->keys->tenantkeys, hash)`. -/
def DdBrokerKeys.tenant (k : DdBrokerKeys) (hash : CStr) : Option DdTenant :=
  k.tenantkeys.lookup hash

/-- A tenant that is found is in the file. -/
theorem DdBrokerKeys.mem_of_tenant {k : DdBrokerKeys} {hash : CStr} {ten : DdTenant}
    (h : k.tenant hash = some ten) : (hash, ten) ∈ k.tenantkeys := by
  obtain ⟨l₁, l₂, h, -⟩ := List.lookup_eq_some_iff.mp h
  rw [h]
  simp

/-! ## The tables -/

/-- `local_client`; its `timeout` is kept in the broker (`DdBroker.cliTimeout`), one for the two
tables that link the same structure. -/
structure LocalClient where
  name : CStr
  prefixName : CStr
  tenant : CStr
  cookie : Cookie
  sockid : Frame
  deriving DecidableEq

/-- `dist_client`. -/
structure DistClient where
  name : CStr
  broker : Frame
  distance : UInt32
  deriving DecidableEq

/-- `local_broker`; its `timeout` is kept in the broker (`DdBroker.brTimeout`). -/
structure LocalBroker where
  sockid : Frame
  cookie : Cookie
  deriving DecidableEq

/-- `subscribe_node`. -/
structure SubscribeNode where
  topics : List CStr
  sockid : Frame
  deriving DecidableEq

/-- The `state` of a broker. -/
inductive DdState where
  | unreg | root | registered
  deriving DecidableEq

/-- The functions a broker calls and does not look into: `XXH32` with the seed of the tables (see
`Hash/XXHash`), `crypto_box_easy` of libsodium with its inverse for a precomputed key, and
`nonce_increment` (see `Keys/Nonce`). -/
structure Env (H : Type) where
  xxh32 : List UInt8 → H
  boxEasyAfternm : (plain nonce key : Frame) → Frame
  boxOpenEasyAfternm : (cipher nonce key : Frame) → Option Frame
  nonceIncrement : Frame → Frame

/-- What a timer of a broker runs, those apart that run from the start to the end. -/
inductive BrokerTimer where
  | sRegister
  | sHeartbeat
  deriving DecidableEq

/-- `dd_broker_t`.  `pubS` and `subS` are open from the start; `pubN` and `subN` are opened together
by `connect_pubsubN` (`connectedN`).  `regLoop` and `heartbeatLoop` are ids of timers of `loop`,
`dsock` says whether there is a socket to a higher broker. -/
structure DdBroker (H : Type) where
  state : DdState
  timeout : Nat
  loop : Zloop BrokerTimer
  regLoop : Nat
  heartbeatLoop : Nat
  dsock : Bool
  keys : DdBrokerKeys
  nonce : Frame
  topicsTrie : Option Trie.Node
  brokerId : Option Frame
  scope : List CStr
  brokerScope : CStr
  pubSEndpoint : CStr
  subSEndpoint : CStr
  connectedN : Bool
  lclCliHt : Lfht H LocalClient
  revLclCliHt : Lfht H LocalClient
  cliTimeout : LocalClient → Nat
  distCliHt : Lfht H DistClient
  lclBrHt : Lfht H LocalBroker
  brTimeout : LocalBroker → Nat
  subscribeHt : Lfht H SubscribeNode

/-- A message handed to one of the sockets. -/
inductive Send where
  /-- To the peer with this socket id. -/
  | rsock (dest : Frame) (msg : List Frame)
  /-- To the higher broker. -/
  | dsock (msg : List Frame)
  | pubN (msg : List Frame)
  | pubS (msg : List Frame)
  | subN (msg : List Frame)
  | subS (msg : List Frame)
  deriving DecidableEq

/-- What a handler leaves: a state and what it sent, or what it sent before the fault. -/
inductive Outcome (H : Type) where
  | done (self : DdBroker H) (sends : List Send)
  | fault (sends : List Send)

namespace Outcome

variable {H : Type}

/-- What was sent. -/
def sends : Outcome H → List Send
  | .done _ s => s
  | .fault s => s

/-- Messages sent before the outcome. -/
def after (pre : List Send) : Outcome H → Outcome H
  | .done self s => .done self (pre ++ s)
  | .fault s => .fault (pre ++ s)

/-- One handler after the other. -/
def andThen (o : Outcome H) (f : DdBroker H → Outcome H) : Outcome H :=
  match o with
  | .done self s => (f self).after s
  | .fault s => .fault s

@[simp] theorem after_done (pre : List Send) (self : DdBroker H) (s : List Send) :
    (done self s).after pre = done self (pre ++ s) := rfl

@[simp] theorem after_fault (pre s : List Send) :
    (fault s : Outcome H).after pre = fault (pre ++ s) := rfl

@[simp] theorem done_andThen (self : DdBroker H) (s : List Send) (f : DdBroker H → Outcome H) :
    (done self s).andThen f = (f self).after s := rfl

@[simp] theorem fault_andThen (s : List Send) (f : DdBroker H → Outcome H) :
    (fault s).andThen f = fault s := rfl

@[simp] theorem sends_after (pre : List Send) (o : Outcome H) :
    (o.after pre).sends = pre ++ o.sends := by cases o <;> rfl

theorem after_eq_done {pre s : List Send} {o : Outcome H} {self : DdBroker H} :
    o.after pre = done self s ↔ ∃ s', o = done self s' ∧ s = pre ++ s' := by
  cases o with
  | done self' s' => simp [eq_comm, and_comm]
  | fault s' => simp

theorem andThen_eq_done {o : Outcome H} {f : DdBroker H → Outcome H} {self : DdBroker H}
    {s : List Send} : o.andThen f = done self s ↔
      ∃ self₁ s₁ s₂, o = done self₁ s₁ ∧ f self₁ = done self s₂ ∧ s = s₁ ++ s₂ := by
  cases o with
  | done self₁ s₁ =>
    rw [done_andThen, after_eq_done]
    constructor
    · rintro ⟨s₂, hf, rfl⟩
      exact ⟨self₁, s₁, s₂, rfl, hf, rfl⟩
    · rintro ⟨_, _, s₂, h, hf, rfl⟩
      cases h
      exact ⟨s₂, hf, rfl⟩
  | fault s₁ => simp

end Outcome

end DoubleDecker
