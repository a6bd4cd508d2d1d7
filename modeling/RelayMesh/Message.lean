import RelayMesh.Id
import RelayMesh.MessageType

namespace RelayMesh

/-- The token of mutual exclusion: for each server, the number of its last satisfied request. -/
structure Token where
  entries : IdMap Nat
deriving DecidableEq

namespace Token

/-- A new token, on which no request is satisfied yet. -/
def fresh : Token := ⟨SortedMap.empty⟩

instance : Inhabited Token := ⟨fresh⟩

/-- The last satisfied request of `id`; 0 if it has none. -/
def entry (t : Token) (id : Id) : Nat := (t.entries.get? id).getD 0

def setEntry (t : Token) (id : Id) (number : Nat) : Token := ⟨t.entries.insert id number⟩

/-- The token with the listed entries, of which the last one for a server counts. -/
def ofList (entries : List (Id × Nat)) : Token := ⟨SortedMap.ofList entries⟩

@[simp] theorem entry_fresh (id : Id) : fresh.entry id = 0 := rfl

@[simp] theorem entry_setEntry (t : Token) (id other : Id) (number : Nat) :
    (t.setEntry id number).entry other = if other = id then number else t.entry other := by
  unfold entry setEntry
  rw [SortedMap.get?_insert]
  split <;> rfl

end Token

inductive Content
  /-- Its sender exists. -/
  | identity
  /-- The election wave of `initiator` has reached its sender. -/
  | electionToken (initiator : Id)
  /-- The wave of `initiator` has won. -/
  | electionLeader (initiator : Id)
  /-- Its sender wants to enter the critical section, for the `number`th time. -/
  | mutexRequest (number : Nat)
  /-- The token is handed over by a server whose last request was `number`. -/
  | mutexToken (number : Nat) (token : Token)
  /-- The line `sequence` of a client, counted from 0. -/
  | chat (sequence : Nat) (text : String)
deriving DecidableEq

inductive Kind
  | identity
  | electionToken
  | electionLeader
  | mutexRequest
  | mutexToken
  | chat
deriving DecidableEq, Repr

/-- The name of a kind in the texts of faults. -/
def Kind.name : Kind → String
  | .identity => "Identity"
  | .electionToken => "ElectionToken"
  | .electionLeader => "ElectionLeader"
  | .mutexRequest => "MutexRequest"
  | .mutexToken => "MutexSendToken"
  | .chat => "Chat"

namespace Content

def kind : Content → Kind
  | identity => .identity
  | electionToken _ => .electionToken
  | electionLeader _ => .electionLeader
  | mutexRequest _ => .mutexRequest
  | mutexToken _ _ => .mutexToken
  | chat _ _ => .chat

/-- The server whose election wave the content belongs to. -/
def initiator? : Content → Option Id
  | electionToken initiator => some initiator
  | electionLeader initiator => some initiator
  | _ => none

/-- How often a server may stand on the path of a message with this content. -/
def visitLimit : Content → Nat
  | identity => 2
  | _ => 1

end Content

/-- What goes between servers and clients: whom it comes from, which servers it went through, whom it is
for if not for everybody, and what it carries. -/
structure Message where
  sender : Id
  /-- The servers it went through, in order. -/
  path : List Id
  /-- The only server it is for; other servers pass it on. -/
  recipient : Option Id
  content : Content
deriving DecidableEq

namespace Message

/-- A message of `sender` that has gone nowhere yet. -/
def new (sender : Id) (content : Content) : Message := ⟨sender, [], none, content⟩

def addressedTo (m : Message) (recipient : Id) : Message := { m with recipient := some recipient }

def hasVisited (m : Message) (id : Id) : Bool := m.path.contains id

/-- The message with `id` at the end of its path, unless `id` stands there often enough. -/
def appendToPath (m : Message) (id : Id) : Message :=
  if m.path.count id < m.content.visitLimit then { m with path := m.path ++ [id] } else m

def sequence? (m : Message) : Option Nat :=
  match m.content with
  | .chat sequence _ => some sequence
  | _ => none

/-- Every counter in the message fits into 64 bits. -/
def Fits (m : Message) : Prop :=
  match m.content with
  | .mutexRequest number => number < UInt64.size
  | .mutexToken number token => number < UInt64.size ∧ ∀ b ∈ token.entries.toList, b.2 < UInt64.size
  | .chat sequence _ => sequence < UInt64.size
  | _ => True

@[simp] theorem content_appendToPath (m : Message) (id : Id) :
    (m.appendToPath id).content = m.content := by
  unfold appendToPath
  split <;> rfl

@[simp] theorem sender_appendToPath (m : Message) (id : Id) :
    (m.appendToPath id).sender = m.sender := by
  unfold appendToPath
  split <;> rfl

@[simp] theorem recipient_appendToPath (m : Message) (id : Id) :
    (m.appendToPath id).recipient = m.recipient := by
  unfold appendToPath
  split <;> rfl

end Message

/-- A send that an algorithm asks its server for. -/
inductive Outgoing
  /-- To every neighbour but `except` and those on the path. -/
  | flood (except : Option Id) (type : MessageType) (msg : Message)
  /-- To one server, along its route. -/
  | toServer (dest : Id) (type : MessageType) (msg : Message)
deriving DecidableEq

end RelayMesh
