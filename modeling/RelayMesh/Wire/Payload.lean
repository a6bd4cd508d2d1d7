import RelayMesh.Wire.Varint

namespace RelayMesh.Wire

/-- Reads a value off the front of a string of bytes. -/
abbrev Decoder (α : Type) := StateT Bytes (Except PayloadFault) α

namespace Decoder

def fail {α : Type} (why : PayloadFault) : Decoder α := fun _ => .error why

def number (bits : Nat) : Decoder Nat := Varint.decode bits

def byte : Decoder UInt8
  | [] => .error .unexpectedEnd
  | b :: rest => .ok (b, rest)

def bytes (n : Nat) : Decoder Bytes := fun input =>
  if n ≤ input.length then .ok (input.splitAt n) else .error .unexpectedEnd

def times {α : Type} (item : Decoder α) : Nat → Decoder (List α)
  | 0 => pure []
  | n + 1 => do
    let first ← item
    let others ← times item n
    pure (first :: others)

/-- A length and as many values. -/
def list {α : Type} (item : Decoder α) : Decoder (List α) := do
  let n ← number 64
  times item n

def optional {α : Type} (item : Decoder α) : Decoder (Option α) := do
  match (← byte).toNat with
  | 0 => pure none
  | 1 => return some (← item)
  | _ => fail .badOption

def id : Decoder Id := return UInt32.ofNat (← number 32)

def text : Decoder String := do
  let n ← number 64
  let raw ← bytes n
  match String.fromUTF8? ⟨raw.toArray⟩ with
  | some s => pure s
  | none => fail .badText

def tokenEntry : Decoder (Id × Nat) := do
  let server ← id
  let request ← number 64
  pure (server, request)

def token : Decoder Token := return Token.ofList (← list tokenEntry)

def content : Decoder Content := do
  match ← number 32 with
  | 0 => pure .identity
  | 1 => return .electionToken (← id)
  | 2 => return .electionLeader (← id)
  | 3 => return .mutexRequest (← number 64)
  | 4 => do
    let request ← number 64
    return .mutexToken request (← token)
  | 5 => do
    let sequence ← number 64
    return .chat sequence (← text)
  | _ => fail .unknownVariant

def message : Decoder Message := do
  let sender ← id
  let path ← list id
  let recipient ← optional id
  return ⟨sender, path, recipient, ← content⟩

def value {α : Type} (d : Decoder α) (input : Bytes) : Except PayloadFault α :=
  match d input with
  | .ok (a, _) => .ok a
  | .error why => .error why

end Decoder

open Varint

def encodeId (id : Id) : Bytes := encode id.toNat

def encodeText (text : String) : Bytes :=
  let raw := text.toByteArray.data.toList
  encode raw.length ++ raw

def encodeToken (token : Token) : Bytes :=
  encode token.entries.size ++
    token.entries.toList.flatMap (fun b => encodeId b.1 ++ encode b.2)

def encodeOptional : Option Id → Bytes
  | none => [0]
  | some id => 1 :: encodeId id

def encodeContent : Content → Bytes
  | .identity => encode 0
  | .electionToken initiator => encode 1 ++ encodeId initiator
  | .electionLeader initiator => encode 2 ++ encodeId initiator
  | .mutexRequest request => encode 3 ++ encode request
  | .mutexToken request token => encode 4 ++ encode request ++ encodeToken token
  | .chat sequence text => encode 5 ++ encode sequence ++ encodeText text

def encodeMessage (m : Message) : Bytes :=
  encodeId m.sender ++ encode m.path.length ++ m.path.flatMap encodeId ++
    encodeOptional m.recipient ++ encodeContent m.content

end RelayMesh.Wire
