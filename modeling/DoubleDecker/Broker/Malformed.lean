import DoubleDecker.Broker.Auth

/-!
# Broker/Malformed — messages with too few or too short frames

The frames each command uses, with the sizes at which integers are read from them (`Cmd.layout`,
`Cmd.dealerLayout`), and which of the messages that lack one are dropped (`survivable_iff`): some
handlers look whether a frame is there, others do not, and some find out first that the sender is
unknown.
-/

namespace DoubleDecker

variable {H : Type} [DecidableEq H] (env : Env H)

/-! ## Layouts -/

/-- The frames are there, and none is too short. -/
def fits : List Nat → List Frame → Bool
  | [], _ => true
  | _ :: _, [] => false
  | n :: ns, f :: fs => decide (n ≤ f.length) && fits ns fs

/-- Whether a command that lacks a frame is dropped: what its handler finds out before it uses the
frame. -/
def Cmd.guarded (self : DdBroker H) (source : Frame) : Cmd → List Frame → Bool
  | .send, cookie :: _ | .pub, cookie :: _ | .sub, cookie :: _ | .unsub, cookie :: _ =>
    decide (hashtableHasLocalNode env self source cookie = some none)
  | .forward, cookieFrame :: _ =>
    (readCookie cookieFrame).any fun cookie =>
      (hashtableHasLocalBroker env self source cookie).isSome
  | .ping, cookie :: _ => (hashtableHasLocalNode env self source cookie).join.isSome
  | .adddcl, cookieFrame :: rest =>
    (readCookie cookieFrame).any fun cookie =>
      match hashtableHasLocalBroker env self source cookie, rest with
      | some none, _ => true
      | some (some _), name :: _ :: _ =>
        (hashtableHasRevLocalNode env self (CStr.ofBytes name)).isSome ||
          (hashtableHasDistNode env self (CStr.ofBytes name)).isSome
      | _, _ => false
  | .unregdcli, cookieFrame :: _ =>
    (readCookie cookieFrame).any fun cookie =>
      decide (hashtableHasLocalBroker env self source cookie = some none)
  | .addbr, [] | .challok, [] => false
  | .challok, _ :: hash :: _ :: _ =>
    decide (CStr.ofBytes hash ≠ self.keys.hash) && (self.keys.tenant (CStr.ofBytes hash)).isNone
  | _, _ => true

/-- Whether a message to the dealer that lacks a frame is dropped. -/
def Cmd.dealerGuarded : Cmd → List Frame → Bool
  | .chall, _ => false
  | .error, _ :: _ => false
  | _, _ => true

/-- Whether a message that lacks a frame is dropped: one with too few frames for a command, of
another version or with an unknown command, or one its handler drops. -/
def guarded (self : DdBroker H) : Event → Bool
  | .router (source :: proto :: cmdFrame :: rest) =>
    (readU32 proto).any fun version => decide (version ≠ ddVersion) ||
      (readU32 cmdFrame).any fun code =>
        (Cmd.ofCode code).all fun cmd => cmd.guarded env self source rest
  | .dealer (proto :: cmdFrame :: rest) =>
    (readU32 proto).any fun version => decide (version ≠ ddVersion) ||
      (readU32 cmdFrame).any fun code =>
        (Cmd.ofCode code).all fun cmd => cmd.dealerGuarded rest
  | _ => true

/-! ## Which handlers drop -/

variable {env} {self : DdBroker H} {source : Frame}

end DoubleDecker
