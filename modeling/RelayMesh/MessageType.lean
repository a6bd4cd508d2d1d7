namespace RelayMesh

/-- What a message is for. Each algorithm owns a range of twenty numbers; those of servers start at 0
and those of clients at 1000. -/
abbrev MessageType := UInt32

/-- The algorithms of servers, in the order of their ranges. -/
inductive ServerAlgorithm
  | topology
  | election
  | exclusion
deriving DecidableEq, Repr

inductive ClientAlgorithm
  | chat
deriving DecidableEq, Repr

def ServerAlgorithm.number : ServerAlgorithm → UInt32
  | .topology => 0
  | .election => 1
  | .exclusion => 2

def ClientAlgorithm.number : ClientAlgorithm → UInt32
  | .chat => 0

namespace MessageType

def serverOffset : UInt32 := 0

def clientOffset : UInt32 := 1000

def rangeSize : UInt32 := 20

/-- The number of an action, counted from the start of its algorithm's range. -/
def ofAction (offset algorithm action : UInt32) : MessageType :=
  offset + algorithm * rangeSize + action

/-- The first frame of every connection. It shares its number with identity announcements. -/
def handshake : MessageType := 0

def identity : MessageType := ofAction serverOffset ServerAlgorithm.topology.number 0

def electionToken : MessageType := ofAction serverOffset ServerAlgorithm.election.number 0

def electionLeader : MessageType := ofAction serverOffset ServerAlgorithm.election.number 1

def mutexRequest : MessageType := ofAction serverOffset ServerAlgorithm.exclusion.number 0

def mutexToken : MessageType := ofAction serverOffset ServerAlgorithm.exclusion.number 1

def chat : MessageType := ofAction clientOffset ClientAlgorithm.chat.number 0

/-- Whether the number lies in the range of the client algorithms. -/
def isForClients (type : MessageType) : Bool := clientOffset ≤ type

end MessageType

end RelayMesh
