/-
# `AutobricksVpn.Net.IoError` — I/O errors and the TUN error policy

`io::Error` as far as the program looks at it: the kind, the operating-system
number and the text.  `classifyTunError` is the one place that says what an
error on the TUN device means:

    WouldBlock, Interrupted   ↦  retry the same packet
    ENOBUFS                   ↦  drop this packet
    anything else             ↦  fatal
-/

namespace AutobricksVpn

/-- The values of `io::ErrorKind` that occur in the program. -/
inductive ErrorKind where
  | interrupted
  | wouldBlock
  | writeZero
  | timedOut
  | permissionDenied
  | invalidInput
  | invalidData
  | brokenPipe
  | unexpectedEof
  | outOfMemory
  | uncategorized
  | other
  deriving DecidableEq

structure IoError where
  kind : ErrorKind
  rawOsError : Option Int
  message : String
  deriving DecidableEq

namespace IoError

/-- `io::Error::new`. -/
def new (kind : ErrorKind) (message : String) : IoError :=
  { kind := kind, rawOsError := none, message := message }

/-- `io::Error::other`. -/
def other (message : String) : IoError := new .other message

@[simp] theorem kind_new (kind : ErrorKind) (message : String) : (new kind message).kind = kind := rfl

@[simp] theorem kind_other (message : String) : (other message).kind = .other := rfl

end IoError

/-- `libc::ENOBUFS` on Linux. -/
def ENOBUFS : Int := 105

inductive TunErrorAction where
  | retry
  | dropPacket
  | fatal
  deriving DecidableEq

def classifyTunError (error : IoError) : TunErrorAction :=
  if error.kind = .wouldBlock ∨ error.kind = .interrupted then .retry
  else if error.rawOsError = some ENOBUFS then .dropPacket
  else .fatal

end AutobricksVpn
