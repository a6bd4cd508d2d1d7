import RelayMesh.Config
import RelayMesh.Text.Decimal
import RelayMesh.Text.Quoted

namespace RelayMesh

structure Peer where
  host : String
  id : Id
deriving DecidableEq, Repr

/-- What a server is started with. On the command line it is written `<id> [<host> <id>]...`. -/
structure Startup where
  identity : Id
  peers : List Peer := []
  config : Config := {}
deriving DecidableEq, Repr

namespace Startup

/-- Whether a server can start like this, whatever happens on the network. -/
def validate (s : Startup) : Except Fault Unit :=
  if s.identity = 0 then .error (.invalidArgument .zeroIdentity)
  else if s.peers.any (·.id = s.identity) then .error (.invalidArgument .ownPeer)
  else do
    s.config.validate
    discard (s.config.serverPort s.identity)

def parseId (argument : String) : Except Fault Id :=
  (Text.word argument.toList).mapError fun why =>
    .invalidArgument (.badNumber (Text.quote argument) why)

def parsePeers : List String → Except Fault (List Peer)
  | host :: id :: rest => do
    let id ← parseId id
    let peers ← parsePeers rest
    return ⟨host, id⟩ :: peers
  | _ => .ok []

/-- Reads the command line. Its form is checked before any number, and numbers in their order
before what they say. -/
def ofArguments : List String → Except Fault Startup
  | [] => .error (.invalidArgument .usage)
  | first :: rest => do
    if rest.length % 2 ≠ 0 then throw (.invalidArgument .usage)
    let identity ← parseId first
    let peers ← parsePeers rest
    let startup : Startup := { identity, peers }
    startup.validate
    return startup

end Startup

end RelayMesh
