import RelayMesh.Server.Events

namespace RelayMesh

/-- What an operator can ask of a server directly. -/
inductive Command
  | announce
  | elect
  | request
  | release
  | shutdown
  | leave (stay : Nat)
  | console (line : String)
  | send (dest : Id) (type : MessageType) (msg : Message)
  | flood (except : Option Id) (type : MessageType) (msg : Message)
  | floodClients (except : Option Id) (type : MessageType) (msg : Message)
  | execute (type : MessageType) (msg : Message)
  | executeMessage (msg : Message)
  | receive (kind : Kind) (msg : Message)
  | query (dest : Id)
deriving DecidableEq

/-- What is answered to a command or to another step. -/
inductive Answer
  | nothing
  | flag (value : Bool)
  | count (value : Nat)
  | identity (id : Id)
  | outcome (result : Except Fault Unit)
  /-- The route to an entity, and the number of all routes. -/
  | route (route : Option Route) (total : Nat)
  /-- Whether a connection was closed, and whether it is now. -/
  | closing (before after : Bool)
  /-- A frame of this type has gone from one server to another. -/
  | hop (source target : Id) (type : MessageType)

namespace Server

def attempt (s : Server) (step : Except Fault Server) : Server × Answer :=
  match step with
  | .ok s => (s, .outcome (.ok ()))
  | .error why => (s, .outcome (.error why))

def obey (s : Server) : Command → Server × Answer
  | .announce => (s.announce, .nothing)
  | .elect => (s.startElection, .nothing)
  | .request => (s.requestSection, .nothing)
  | .release => (s.leave none, .nothing)
  | .shutdown => (s.shutdown, .nothing)
  | .leave stay => (s.leave (some stay), .nothing)
  | .console line =>
    let (s, goesOn) := s.console line
    (s, .flag goesOn)
  | .send dest type msg => s.attempt (s.sendTo dest type msg)
  | .flood except type msg =>
    let (s, sent) := s.flood except type msg
    (s, .count sent)
  | .floodClients except type msg =>
    let (s, sent) := s.floodClients except type msg
    (s, .count sent)
  | .execute type msg => s.attempt (s.execute type msg)
  | .executeMessage msg => s.attempt (s.executeMessage msg)
  | .receive kind msg => s.attempt (s.receive kind msg)
  | .query dest => (s, .route (s.routes.get? dest) s.routes.size)

end Server

end RelayMesh
