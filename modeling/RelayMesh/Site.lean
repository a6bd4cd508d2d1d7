import RelayMesh.Client
import RelayMesh.Server.Command
import RelayMesh.Session
import RelayMesh.Startup

namespace RelayMesh

/-- What becomes of an attempt to connect to an address. -/
inductive Reception
  /-- The connection stands, and `greeting` is what comes in on it at first. -/
  | accepted (greeting : Incoming)
  | refused (why : LinkFault)
  /-- The connection breaks before anything is written on it. -/
  | broken (cause : String)
deriving DecidableEq

/-- What becomes of the connections that are made from a host, by their addresses. -/
abbrev Network := String → Reception

namespace Network

/-- No address can be reached. -/
def silent : Network := fun address => .refused (.unreachable address)

def connect (network : Network) (host : String) (port : Nat) : Except Fault Incoming :=
  match network (host ++ ":" ++ toString port) with
  | .accepted greeting => .ok greeting
  | .refused why => .error (.connectionFailed why)
  | .broken cause => .error (.io cause)

end Network

/-- Servers and clients on one host, that lets them listen on its ports and connect through a
network. What other programs send to them later is not part of a site. -/
structure Site where
  config : Config
  network : Network
  /-- Ports that other programs listen on. -/
  occupied : List Nat := []
  /-- The servers that came up, also after their shutdown. -/
  servers : IdMap Server := .empty
  /-- The clients that got a connection, in this order. -/
  clients : List Client := []

namespace Site

/-- A step that cannot be carried out at all. -/
inductive Obstacle
  | unknownServer
  | unknownClient
  | refused
deriving DecidableEq, Repr

inductive Step
  | start (identity : Id) (peers : List Peer)
  | command (server : Id) (command : Command)
  | drop (server : Id)
  | connect (host : String) (server : Id)
  | chat (client : Id) (text : String)
  | closeClient (client : Id)
  | dropClient (client : Id)
  /-- A connection is made that is neither a server's nor a client's. -/
  | bare
deriving DecidableEq

/-- The milliseconds that pass after each step, in which short stays in the critical section end. -/
def pause : Nat := 40

def portsOf (s : Server) : List Nat :=
  let first := s.config.basePort.toNat + s.identity.toNat
  if s.down then [] else [first, first + Config.serverPortOffset]

def portsInUse (site : Site) : List Nat :=
  site.occupied ++ site.servers.values.flatMap portsOf

/-- Listens on a port of all interfaces. -/
def listen (site : Site) (port : Nat) : Except Fault Unit :=
  if port ∈ site.portsInUse then
    .error (.bind ("0.0.0.0:" ++ toString port) "Address already in use (os error 98)")
  else .ok ()

/-- Connects a server to another one: says on the connection who it is, and registers it. -/
def join (network : Network) (s : Server) (link : LinkId) (peer : Peer) : Except Fault Server := do
  let port ← s.config.serverPort peer.id
  discard (network.connect peer.host port)
  discard ((Frame.handshake s.identity s.identity).write s.config.maxMessageSize [])
  return { s.addNeighbour peer.id link with
    outbox := s.outbox.addLink link s.config.sendQueueCapacity }

/-- Connects a server to others, one after the other, up to the first one that it does not get to. -/
def dial (network : Network) (s : Server) (link : LinkId) : List Peer → Except Fault Server
  | [] => .ok s
  | peer :: rest => do
    let s ← join network s link peer
    dial network s (link + 1) rest

/-- A server takes up its ports, connects to its peers and announces itself. -/
def start (site : Site) (startup : Startup) : Except Fault Site := do
  startup.validate
  site.listen (← startup.config.clientPort startup.identity)
  site.listen (← startup.config.serverPort startup.identity)
  let server ← dial site.network (Server.new startup.identity startup.config) 0 startup.peers
  return { site with servers := site.servers.insert startup.identity server.announce }

/-- The identity that the first frame on a connection gives to a client. -/
def assigned (limit : UInt32) (input : Incoming) : Except Fault Id :=
  match Frame.parse limit input.bytes with
  | ([], ending) => .error (Session.missing ending input.ended)
  | (first :: _, _) => first.announced

def connect (site : Site) (host : String) (server : Id) : Except Fault Client := do
  site.config.validate
  let port ← site.config.clientPort server
  let input ← site.network.connect host port
  let identity ← assigned site.config.maxMessageSize input
  return { identity, server, limit := site.config.maxMessageSize
           queue := some { capacity := site.config.sendQueueCapacity } }

def command (site : Site) (id : Id) (command : Command) : Except Obstacle (Site × Answer) :=
  match site.servers.get? id with
  | none => .error .unknownServer
  | some s =>
    let (s, answer) := s.obey command
    .ok ({ site with servers := site.servers.insert id s }, answer)

/-- Puts a client in the place of the one with its identity. -/
def replaceClient (site : Site) (c : Client) : Site :=
  { site with clients := site.clients.map fun d => if d.identity = c.identity then c else d }

def client (site : Site) (id : Id) : Except Obstacle Client :=
  match site.clients.find? (·.identity = id) with
  | none => .error .unknownClient
  | some c => .ok c

/-- Carries out a step. What is to be forgotten need not be there. -/
def perform (site : Site) : Step → Except Obstacle (Site × Answer)
  | .start identity peers =>
    match site.start { identity, peers, config := site.config } with
    | .ok site => .ok (site, .outcome (.ok ()))
    | .error why => .ok (site, .outcome (.error why))
  | .command id command => site.command id command
  | .drop id => .ok ({ site with servers := site.servers.erase id }, .nothing)
  | .connect host server =>
    match site.connect host server with
    | .ok c => .ok ({ site with clients := site.clients ++ [c] }, .identity c.identity)
    | .error why => .ok (site, .outcome (.error why))
  | .chat id text => do
    match (← site.client id).sendChat text with
    | .ok (c, number) => return (site.replaceClient c, .count number)
    | .error why => return (site, .outcome (.error why))
  | .closeClient id => do
    let c ← site.client id
    return (site.replaceClient { c.close with queue := none }, .nothing)
  | .dropClient id =>
    .ok ({ site with clients := site.clients.filter (·.identity ≠ id) }, .nothing)
  | .bare => .error .refused

/-- Time passes, and what waits on the connections is written. -/
def settle (site : Site) : Site :=
  let written (s : Server) : Server :=
    { s with outbox := s.outbox.mapValues fun queue => { queue with frames := [] } }
  { site with
    servers := site.servers.mapValues fun s => written (s.advance pause)
    clients := site.clients.map fun c => c.drain.1 }

def step (site : Site) (step : Step) : Except Obstacle (Site × Answer) := do
  let (site, answer) ← site.perform step
  return (site.settle, answer)

end Site

end RelayMesh
