import RelayMesh.Message

namespace RelayMesh

inductive PayloadFault
  | unexpectedEnd
  | badVarint
  | badOption
  | badText
  | unknownVariant
deriving DecidableEq, Repr

def PayloadFault.message : PayloadFault → String
  | .unexpectedEnd => "Hit the end of buffer, expected more data"
  | .badVarint =>
    "Found a varint that didn't terminate. Is the usize too big for this platform?"
  | .badOption => "Found an Option discriminant that wasn't 0 or 1"
  | .badText => "Tried to parse invalid utf-8"
  | .unknownVariant => "Serde Deserialization Error"

inductive NumberFault
  | empty
  | badDigit
  | tooLarge
deriving DecidableEq, Repr

def NumberFault.message : NumberFault → String
  | .empty => "cannot parse integer from empty string"
  | .badDigit => "invalid digit found in string"
  | .tooLarge => "number too large to fit in target type"

inductive Setting
  | basePort
  | handshakeTimeout
  | sendQueueCapacity
  | interceptPollInterval
  | maxMessageSize
deriving DecidableEq, Repr

def Setting.name : Setting → String
  | .basePort => "base_port"
  | .handshakeTimeout => "handshake_timeout_ms"
  | .sendQueueCapacity => "send_queue_capacity"
  | .interceptPollInterval => "intercept_poll_interval_ms"
  | .maxMessageSize => "max_message_size"

inductive Refusal
  | usage
  /-- `quoted` is the argument in quotes. -/
  | badNumber (quoted : String) (why : NumberFault)
  | zeroIdentity
  | ownPeer
  | zeroSetting (setting : Setting)
  | noPort (server : Id)
  | nameTaken (interceptor : String) (owner : Id)
  | other (text : String)
deriving DecidableEq, Repr

def Refusal.message : Refusal → String
  | .usage => "usage: <server number> [<hostname> <server number>]..."
  | .badNumber quoted why => "invalid server number " ++ quoted ++ ": " ++ why.message
  | .zeroIdentity => "the identity of a server must be > 0"
  | .ownPeer => "a server cannot connect to itself"
  | .zeroSetting setting => setting.name ++ " must be > 0"
  | .noPort server => "no port for server " ++ toString server
  | .nameTaken interceptor owner =>
    "interceptor " ++ interceptor ++ " already registered for entity " ++ toString owner
  | .other text => text

/-- Why a connection does not take a frame, or does not come about. -/
inductive LinkFault
  | queueGone
  | unreachable (address : String)
  | other (text : String)
deriving DecidableEq, Repr

def LinkFault.message : LinkFault → String
  | .queueGone => "send channel closed"
  | .unreachable address => "TCP connect to " ++ address ++ " failed"
  | .other text => text

inductive HandshakeFault
  | wrongType (got : MessageType)
  | ownIdentity
  | other (text : String)
deriving DecidableEq, Repr

def HandshakeFault.message : HandshakeFault → String
  | .wrongType got => "expected handshake, got message type " ++ toString got
  | .ownIdentity => "peer announced our own identity"
  | .other text => text

/-- A defect of the program itself. -/
inductive InternalFault
  | noAction (kind : Kind)
  | other (text : String)
deriving DecidableEq, Repr

def InternalFault.message : InternalFault → String
  | .noAction kind => "no server action for " ++ kind.name ++ " messages"
  | .other text => text

inductive Fault
  | invalidArgument (why : Refusal)
  | io (cause : String)
  | bind (address cause : String)
  | connectionFailed (why : LinkFault)
  | connectionClosed
  | unknownDestination (dest : Id)
  | sendToSelf
  | sendQueueFull
  | messageTooLarge (size : Nat)
  | badPayload (why : PayloadFault)
  | unknownMessageType (type : MessageType)
  | contentMismatch (type : MessageType) (expected got : Kind)
  | frameNotReady
  | handshakeFailed (why : HandshakeFault)
  | handshakeTimeout
  | internal (why : InternalFault)
deriving DecidableEq, Repr

namespace Fault

def message : Fault → String
  | invalidArgument why => "invalid argument: " ++ why.message
  | io cause => "IO error: " ++ cause
  | bind address cause => "cannot bind " ++ address ++ ": " ++ cause
  | connectionFailed why => "connection failed: " ++ why.message
  | connectionClosed => "connection closed"
  | unknownDestination dest => "no route to entity " ++ toString dest
  | sendToSelf => "sending to myself is not supported"
  | sendQueueFull => "send queue full"
  | messageTooLarge size => "message too large: " ++ toString size ++ " bytes"
  | badPayload why => "serialization error: " ++ why.message
  | unknownMessageType type => "unknown message type: " ++ toString type
  | contentMismatch type expected got =>
    "content mismatch for message type " ++ toString type ++ ": expected " ++ expected.name ++
      ", got " ++ got.name
  | frameNotReady => "no complete frame available"
  | handshakeFailed why => "handshake failed: " ++ why.message
  | handshakeTimeout => "handshake timeout"
  | internal why => "internal error: " ++ why.message

/-- The text of the fault underneath, if the fault only reports another one. -/
def cause? : Fault → Option String
  | io cause => some cause
  | bind _ cause => some cause
  | badPayload why => some why.message
  | _ => none

theorem bind_eq_ok_iff {α β : Type} {step : Except Fault α} {next : α → Except Fault β} {b : β} :
    step >>= next = .ok b ↔ ∃ a, step = .ok a ∧ next a = .ok b := by
  cases step with
  | error why =>
    constructor
    · intro h
      cases h
    · rintro ⟨a, ⟨⟩, -⟩
  | ok a =>
    constructor
    · exact fun h => ⟨a, rfl, h⟩
    · rintro ⟨a, ⟨⟩, h⟩
      exact h

theorem bind_eq_error_iff {α β : Type} {step : Except Fault α} {next : α → Except Fault β}
    {why : Fault} : step >>= next = .error why ↔
      step = .error why ∨ ∃ a, step = .ok a ∧ next a = .error why := by
  cases step with
  | error fault =>
    constructor
    · exact fun h => .inl (by cases h; rfl)
    · rintro (⟨⟨⟩⟩ | ⟨a, ⟨⟩, -⟩)
      rfl
  | ok a =>
    constructor
    · exact fun h => .inr ⟨a, rfl, h⟩
    · rintro (⟨⟨⟩⟩ | ⟨a, ⟨⟩, h⟩)
      exact h

end Fault

end RelayMesh
