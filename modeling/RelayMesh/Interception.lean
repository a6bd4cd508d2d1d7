import RelayMesh.Exclusion
import RelayMesh.Election
import RelayMesh.Fault

namespace RelayMesh

/-- Which messages an interceptor claims: those that agree with every part that is given. -/
structure Pattern where
  sender : Option Id := none
  kind : Option Kind := none
  initiator : Option Id := none
deriving DecidableEq

/-- Whether a value agrees with a part of a pattern. -/
def agrees {α : Type} [DecidableEq α] (part : Option α) (value : Option α) : Bool :=
  part.isNone || part = value

def Pattern.claims (p : Pattern) (msg : Message) : Bool :=
  agrees p.sender (some msg.sender) && agrees p.kind (some msg.content.kind) &&
    agrees p.initiator msg.content.initiator?

/-- When a withheld message is given to its server: once every part that is given holds there. -/
structure Condition where
  /-- The number of the server's last request. -/
  number : Option Nat := none
  phase : Option Exclusion.Phase := none
  electionNot : Option Election.Status := none
  hasToken : Option Bool := none
  minNeighbours : Option Nat := none
  minClients : Option Nat := none
  /-- An entity that the server has a route to. -/
  knows : Option Id := none
  never : Bool := false
deriving DecidableEq

/-- Withholds the messages it claims from a server, and gives them to it once its condition holds. -/
structure Interceptor where
  name : String
  owner : Id
  pattern : Pattern
  condition : Condition
deriving DecidableEq

/-- The interceptors of all servers of a mesh, in the order of their registration. -/
structure Interception where
  enabled : Bool := false
  interceptors : List Interceptor := []
deriving DecidableEq

namespace Interception

def ofOwner (i : Interception) (owner : Id) : List Interceptor :=
  i.interceptors.filter (·.owner = owner)

/-- Adds an interceptor under a name that its owner has not given yet. -/
def register (i : Interception) (interceptor : Interceptor) : Except Fault Interception :=
  if (i.ofOwner interceptor.owner).any (·.name = interceptor.name) then
    .error (.invalidArgument (.nameTaken interceptor.name interceptor.owner))
  else .ok { i with interceptors := i.interceptors ++ [interceptor] }

def count (i : Interception) (owner : Id) : Nat := (i.ofOwner owner).length

/-- The first interceptor of `owner` that withholds the message. -/
def claim (i : Interception) (owner : Id) (msg : Message) : Option Interceptor :=
  if i.enabled then (i.ofOwner owner).find? (·.pattern.claims msg) else none

end Interception

end RelayMesh
