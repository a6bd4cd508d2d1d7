import RelayMesh.Server.Events

namespace RelayMesh

/-- A connection as seen from outside. -/
structure Line where
  link : LinkId
  label : String
  /-- The server at the other end, if it is one of the mesh. -/
  peer : Option Id := none
  /-- Whether its queue fills up instead of being emptied. -/
  held : Bool := false
  closed : Bool := false
deriving DecidableEq

/-- A server together with the other ends of its connections. -/
structure Station where
  server : Server
  /-- The connections that are known, in the order in which they were made. -/
  lines : List Line := []
  nextLink : LinkId := 0
deriving DecidableEq

namespace Station

/-- How many frames a queue holds if nothing else is said. -/
def defaultCapacity : Nat := 1024

def new (identity : Id) (config : Config) : Station := ⟨.new identity config, [], 0⟩

def named? (st : Station) (label : String) : Option Line := st.lines.find? (·.label = label)

def lineTo? (st : Station) (peer : Id) : Option Line := st.lines.find? (·.peer = some peer)

def labelOf? (st : Station) (link : LinkId) : Option String :=
  (st.lines.find? (·.link = link)).map (·.label)

def connect (st : Station) (label : String) (peer : Option Id) (capacity : Nat) (held : Bool) :
    Station × LinkId :=
  let link := st.nextLink
  ({ server := { st.server with outbox := st.server.outbox.addLink link capacity }
     lines := st.lines ++ [{ link, label, peer, held }]
     nextLink := link + 1 }, link)

/-- The connection with a label, made now if there is none. -/
def obtain (st : Station) (label : String) (capacity : Nat) (held : Bool) : Station × LinkId :=
  match st.named? label with
  | some line => (st, line.link)
  | none => st.connect label none capacity held

/-- The queue of a connection goes away; later sends on it fail. -/
def dropQueue (st : Station) (link : LinkId) : Station :=
  { st with server := { st.server with outbox := st.server.outbox.erase link } }

/-- The connection to a server is not known any more. -/
def forgetPeer (st : Station) (peer : Id) : Station :=
  match st.lineTo? peer with
  | none => st
  | some line => { st.dropQueue line.link with lines := st.lines.filter (·.link ≠ line.link) }

def amend (st : Station) (link : LinkId) (change : Line → Line) : Station :=
  { st with lines := st.lines.map fun line => if line.link = link then change line else line }

/-- Empties the queues of `lines` that are not held, and lists what was in them. -/
def drainLines (server : Server) : List Line → Server × List (Line × Frame)
  | [] => (server, [])
  | line :: rest =>
    if line.held then drainLines server rest
    else
      let (outbox, frames) := server.outbox.drain line.link
      let (server, others) := drainLines { server with outbox } rest
      (server, frames.map (line, ·) ++ others)

/-- Empties all queues that are not held: connections in their order, frames in theirs. -/
def drain (st : Station) : Station × List (Line × Frame) :=
  let (server, sent) := drainLines st.server st.lines
  ({ st with server }, sent)

end Station

end RelayMesh
