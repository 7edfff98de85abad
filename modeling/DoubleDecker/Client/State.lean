import DoubleDecker.Broker.State
import DoubleDecker.Library.Zlistx
import Mathlib.Algebra.Group.Nat.Defs

/-!
# Client/State — the data of a client

The keys, the list of subscriptions and the state of one client (`dd_t`), and what a handler of it
leaves behind: the new state, what it sent, the callbacks it made and the lengths it computed.
-/

namespace DoubleDecker

/-- `dd_keys_t`: the keys precomputed for the broker, for the client's own tenant and for the tenant
`public`, and, when the client is public itself, those for every other tenant by its name. -/
structure DdKeys where
  ispublic : Bool
  hash : CStr
  ddboxk : Frame
  custboxk : Frame
  pubboxk : Frame
  clientkeys : List (CStr × Frame)
  deriving DecidableEq

/-- `ddtopic_t`. -/
structure Ddtopic where
  topic : CStr
  scope : CStr
  active : Bool
  deriving DecidableEq

/-- The `state` of a client. -/
inductive DdClientState where
  | unreg | registered
  deriving DecidableEq

/-- What a timer of a client runs. -/
inductive TimerFn where
  | sAskRegistration
  | sHeartbeat
  | sPing
  deriving DecidableEq

/-- `dd_t`.  `registrationLoop` and `heartbeatLoop` are ids of timers of `loop`. -/
structure DdClient where
  clientName : CStr
  timeout : Nat
  state : DdClientState
  loop : Zloop TimerFn
  registrationLoop : Nat
  heartbeatLoop : Nat
  cookie : Cookie
  keys : DdKeys
  sublist : Zlistx Ddtopic
  nonce : Frame

/-- A callback of the application. -/
inductive Call where
  | onReg
  | onDiscon
  | onData (source : CStr) (data : Frame)
  | onPub (source topic : CStr) (data : Frame)
  | onError (code : UInt32) (message : CStr)
  deriving DecidableEq

/-- What a handler leaves: a state, the messages sent to the broker, the callbacks made and the
lengths computed on the way. -/
structure Handled where
  self : DdClient
  sends : List (List Frame) := []
  calls : List Call := []
  lengths : List Int := []

/-- `crypto_box_NONCEBYTES`. -/
def nonceBytes : Nat := 24

/-- `crypto_box_MACBYTES`. -/
def macBytes : Nat := 16

/-- `int enclen = zframe_size(encrypted)`. -/
def enclen (encrypted : Frame) : Int := Int.bmod encrypted.length (2 ^ 32)

/-- `enclen - crypto_box_NONCEBYTES`, the length of the ciphertext. -/
def cipherLength (encrypted : Frame) : Int := enclen encrypted - nonceBytes

/-- `enclen - crypto_box_NONCEBYTES - crypto_box_MACBYTES`, the length of the plaintext. -/
def plainLength (encrypted : Frame) : Int := enclen encrypted - nonceBytes - macBytes

/-- `crypto_box_open_easy_afternm` of a frame that starts with its nonce.  A frame that is shorter
than the nonce is read past its end; the length of the ciphertext is an `unsigned int`. -/
def openFrame {H : Type} (env : Env H) (encrypted key : Frame) : Option (Option Frame) :=
  if encrypted.length < nonceBytes then none
  else some (env.boxOpenEasyAfternm
    ((encrypted.drop nonceBytes).take ((encrypted.length - nonceBytes) % 2 ^ 32))
    (encrypted.take nonceBytes) key)

end DoubleDecker
