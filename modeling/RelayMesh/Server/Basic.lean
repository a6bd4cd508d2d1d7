import RelayMesh.Action
import RelayMesh.Config
import RelayMesh.Election
import RelayMesh.Exclusion
import RelayMesh.Outbox

namespace RelayMesh

/-- The end of one stay in the critical section, at a time of the server's clock. -/
structure Timer where
  stay : Nat
  due : Nat
deriving DecidableEq, Repr

/-- The state of a server. Whatever it sends waits in its outbox. -/
structure Server where
  identity : Id
  config : Config
  routes : Routes
  election : Election
  exclusion : Exclusion
  /-- How many clients have got an identity. -/
  minted : Nat
  /-- How often the server has entered the critical section. -/
  stays : Nat
  outbox : Outbox
  clock : Nat
  timers : List Timer
  down : Bool
deriving DecidableEq

namespace Server

def new (identity : Id) (config : Config) : Server where
  identity
  config
  routes := { own := identity }
  election := { own := identity }
  exclusion := { own := identity }
  minted := 0
  stays := 0
  outbox := .empty
  clock := 0
  timers := []
  down := false

def neighbourCount (s : Server) : Nat := s.routes.neighbours.length

def clientCount (s : Server) : Nat := s.routes.clients.length

def clientsPerServer : Nat := 100

def mintClientId (s : Server) : Server × Id :=
  ({ s with minted := s.minted + 1 },
    UInt32.ofNat (min (s.identity.toNat * clientsPerServer + s.minted) maxWord))

def addNeighbour (s : Server) (id : Id) (link : LinkId) : Server :=
  { s with routes := s.routes.addNeighbour id link }

def addClient (s : Server) (id : Id) (link : LinkId) : Server :=
  { s with routes := s.routes.addClient id link }

def frame (s : Server) (type : MessageType) (msg : Message) : Except Fault Frame :=
  Frame.ofMessage type s.identity msg s.config.maxMessageSize

/-- Sends a message along the route to `dest`, with this server on its path. -/
def sendTo (s : Server) (dest : Id) (type : MessageType) (msg : Message) : Except Fault Server :=
  if dest = s.identity then .error .sendToSelf
  else
    match s.routes.get? dest with
    | none => .error (.unknownDestination dest)
    | some route => do
      let frame ← s.frame type (msg.appendToPath s.identity)
      let outbox ← s.outbox.push route.link frame
      return { s with outbox }

/-- Those of `targets` that are neither `except` nor on the path of `msg`. -/
def eligible (except : Option Id) (msg : Message) (targets : List (Id × Route)) : List LinkId :=
  (targets.filter fun b => some b.1 ≠ except ∧ ¬ msg.hasVisited b.1).map (·.2.link)

/-- Sends a message to all neighbours but `except` and those on its path, with this server on its
path, and counts the copies. A message above the size limit is not sent. -/
def flood (s : Server) (except : Option Id) (type : MessageType) (msg : Message) : Server × Nat :=
  let msg := msg.appendToPath s.identity
  match s.frame type msg with
  | .error _ => (s, 0)
  | .ok frame =>
    let (outbox, sent) := s.outbox.pushEach frame (eligible except msg s.routes.neighbours)
    ({ s with outbox }, sent)

/-- Gives a chat line to all clients but `except`, at most once per sender and number, and counts
the copies. A line that reached nobody may be given out again. -/
def floodClients (s : Server) (except : Option Id) (type : MessageType) (msg : Message) :
    Server × Nat :=
  match msg.sequence? with
  | none => (s, 0)
  | some sequence =>
    if s.routes.isNewChat msg.sender sequence then
      match s.frame type msg with
      | .error _ => (s, 0)
      | .ok frame =>
        let (outbox, sent) := s.outbox.pushEach frame (eligible except msg s.routes.clients)
        let s := { s with outbox }
        if 0 < sent then ({ s with routes := s.routes.recordChat msg.sender sequence }, sent)
        else (s, sent)
    else (s, 0)

/-- Carries out one send of an algorithm. One that fails is dropped. -/
def carryOut (s : Server) : Outgoing → Server
  | .flood except type msg => (s.flood except type msg).1
  | .toServer dest type msg =>
    match s.sendTo dest type msg with
    | .ok s => s
    | .error _ => s

def carryOutAll (s : Server) (sends : List Outgoing) : Server := sends.foldl carryOut s

/-- Passes a chat line on to neighbours and clients, except to its sender. -/
def relayChat (s : Server) (type : MessageType) (msg : Message) : Server :=
  let s := (s.flood (some msg.sender) type msg).1
  (s.floodClients (some msg.sender) type msg).1

def announce (s : Server) : Server :=
  (s.flood none MessageType.identity (.new s.identity .identity)).1

def announceTo (s : Server) (dest : Id) : Server :=
  s.carryOut (.toServer dest MessageType.identity
    ((Message.new s.identity .identity).addressedTo dest))

/-- Learns from the path of a message that came over `link`, and answers every server whose route
is new or shorter. -/
def learnRoutes (s : Server) (msg : Message) (link : LinkId) : Server :=
  let (routes, learned) := s.routes.learn msg.path link
  learned.foldl announceTo { s with routes }

end Server

end RelayMesh
