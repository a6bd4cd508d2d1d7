import RelayMesh.Client
import RelayMesh.Proofs.Chat.Arrivals

namespace RelayMesh

/-- A client on its connection to a server. -/
structure Member where
  client : Client
  /-- The number of the connection at the server. -/
  link : LinkId
  /-- What it has said: the lines that it could send. -/
  said : List String := []
  /-- Frames on their way to the server, the oldest first. -/
  upstream : List Frame := []
  /-- Frames on their way to the client, the oldest first. -/
  downstream : List Frame := []
deriving DecidableEq

structure Forum where
  mesh : Mesh
  members : List Member
deriving DecidableEq

namespace Member

def id (p : Member) : Id := p.client.identity

/-- The server that the client is attached to. -/
def home (p : Member) : Id := p.client.server

/-- Where the client sits: its server, its identity and its connection. -/
def seat (p : Member) : Id × Id × LinkId := (p.home, p.id, p.link)

/-- The client sends a line, unless the line is too long or its queue is full. -/
def say (p : Member) (text : String) : Member :=
  match p.client.sendChat text with
  | .ok (client, _) => { p with client, said := p.said ++ [text] }
  | .error _ => p

/-- What waits at the client goes onto the connection. -/
def flush (p : Member) : Member :=
  let (client, frames) := p.client.drain
  { p with client, upstream := p.upstream ++ frames }

/-- The oldest frame for the client arrives. -/
def hear (p : Member) : Member :=
  match p.downstream with
  | [] => p
  | frame :: rest => { p with client := p.client.arrive frame, downstream := rest }

/-- What the server has sent to the client is on its way. -/
def receive (p : Member) (sent : List Sending) : Member :=
  { p with downstream := p.downstream ++ Mesh.sentOver sent p.home p.link }

/-- The chat lines that the client has said. -/
def lines (p : Member) : List ChatLine :=
  p.said.zipIdx.map fun (text, k) => ⟨p.id, k, text⟩

end Member

/-- The limit for frames and the capacity of the queue of a client. -/
structure Equipment where
  limit : UInt32
  capacity : Nat
deriving DecidableEq

namespace Mesh

/-- The clients of the servers: for each its server, its identity and its connection. -/
def seats (m : Mesh) : List (Id × Id × LinkId) :=
  m.stations.toList.flatMap fun (u, st) =>
    st.server.routes.clients.map fun (c, r) => (u, c, r.link)

end Mesh

namespace Forum

inductive Event
  /-- A client is asked to send a line. -/
  | say (who : Id) (text : String)
  /-- What waits at a client goes onto its connection. -/
  | flush (who : Id)
  /-- The oldest frame of a client arrives at its server. -/
  | post (who : Id)
  /-- The oldest frame for a client arrives there. -/
  | hear (who : Id)
  /-- Something happens among the servers. -/
  | move (mv : Mesh.Move)
deriving DecidableEq

/-- The clients of some servers take up what they have been given. -/
def start (m : Mesh) (equip : Id → Equipment) : Forum where
  mesh := m
  members := m.seats.map fun (server, identity, link) =>
    { client :=
        { identity
          server
          limit := (equip identity).limit
          queue := some { capacity := (equip identity).capacity } }
      link }

def update (f : Forum) (who : Id) (change : Member → Member) : Forum :=
  { f with members := f.members.map fun p => if p.id = who then change p else p }

/-- A frame of a client has come to its server, and those in `rest` are still on their way. -/
def submit (f : Forum) (p : Member) (frame : Frame) (rest : List Frame) : Forum :=
  { f.update p.id ({ · with upstream := rest }) with mesh := f.mesh.arrive p.home p.link frame }

/-- An event, before anything follows from it. -/
def effect (f : Forum) : Event → Forum
  | .say who text => f.update who (·.say text)
  | .flush who => f.update who (·.flush)
  | .hear who => f.update who (·.hear)
  | .post who =>
    match f.members.find? (·.id = who) with
    | none => f
    | some p =>
      match p.upstream with
      | [] => f
      | frame :: rest => f.submit p frame rest
  | .move mv => { f with mesh := f.mesh.effect mv }

/-- All that follows: the servers empty their queues. -/
def settle (f : Forum) : Forum :=
  let (mesh, report) := f.mesh.settle
  { mesh, members := f.members.map (·.receive report.sent) }

def next (f : Forum) (e : Event) : Forum := (f.effect e).settle

def play (f : Forum) (events : List Event) : Forum := events.foldl next f

/-- What may happen. A client numbers its lines in 64 bits. -/
def Regular (f : Forum) : Event → Prop
  | .say who _ => ∀ p ∈ f.members, p.id = who → p.client.nextSequence < UInt64.size
  | .flush _ => True
  | .hear _ => True
  | .post who =>
    (∀ p ∈ f.members, p.id = who → ∀ frame ∈ p.upstream.head?, f.mesh.Relayable p.home frame) ∧
      (f.effect (.post who)).mesh.Spacious
  | .move mv => f.mesh.Allows mv ∧ (f.mesh.effect mv).Spacious

/-- Every event is one that may happen. -/
def Obeys (f : Forum) : List Event → Prop
  | [] => True
  | e :: events => f.Regular e ∧ (f.next e).Obeys events

/-- No frame is on its way. -/
def AtRest (f : Forum) : Prop :=
  f.mesh.wire = [] ∧
    (∀ b ∈ f.mesh.stations.toList, ∀ q ∈ b.2.server.outbox.toList, q.2.frames = []) ∧
      ∀ p ∈ f.members, p.upstream = [] ∧ p.downstream = [] ∧ ∀ q ∈ p.client.queue, q.frames = []

end Forum

end RelayMesh
