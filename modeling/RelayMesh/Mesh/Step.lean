import RelayMesh.Mesh.Basic
import RelayMesh.Server.Command

namespace RelayMesh

structure QueueOptions where
  capacity : Nat := Station.defaultCapacity
  held : Bool := false
deriving DecidableEq

namespace Mesh

inductive LocalStep
  | command (command : Command)
  /-- A server registers over the connection with a label. -/
  | neighbour (peer : Id) (label : String) (options : QueueOptions)
  /-- A client is accepted; the label is its identity if none is given. -/
  | client (label : Option String) (options : QueueOptions)
  | frame (label : String) (options : QueueOptions) (frame : Frame)
  | closed (label : String)
  /-- From now on the queue of a connection is emptied. -/
  | unhold (label : String)
  | dropQueue (label : String)
  | closeLine (label : String) (options : QueueOptions)
  /-- Joins the server to others, and makes it known. -/
  | start (peers : List Id)
deriving DecidableEq

inductive Step
  | at (id : Id) (step : LocalStep)
  | advance (ms : Nat)
  | enable (enabled : Bool)
  /-- Delivers the oldest frame of one of the links that have frames on the wire. -/
  | pick (k : Nat)
  /-- Loses the oldest frame of such a link. -/
  | lose (k : Nat)
  /-- The connections between two servers end, and what is on the wire between them is lost. -/
  | cut (a b : Id)
deriving DecidableEq

/-- Registers two servers with each other over a new connection. An older one is forgotten. -/
def joinOneWay (m : Mesh) (id peer : Id) : Mesh :=
  m.update id fun st =>
    let (st, link) := (st.forgetPeer peer).connect ("s" ++ toString peer) (some peer)
      Station.defaultCapacity false
    { st with server := st.server.addNeighbour peer link }

def join (m : Mesh) (id peer : Id) : Mesh := (m.joinOneWay id peer).joinOneWay peer id

/-- The server at `id` sees its connection to `peer` end. -/
def severOneWay (m : Mesh) (id peer : Id) : Mesh :=
  m.update id fun st =>
    match st.lineTo? peer with
    | none => st
    | some line => { st with server := st.server.closeLink line.link }

/-- Whether a frame is on its way between two servers, in either direction. -/
def isBetween (a b : Id) (t : Transit) : Bool :=
  (t.source = a ∧ t.target = b) ∨ (t.source = b ∧ t.target = a)

def sever (m : Mesh) (a b : Id) : Mesh :=
  let m := { m with wire := m.wire.filter (fun t => ¬ isBetween a b t) }
  (m.severOneWay a b).severOneWay b a

/-- The links that have frames on the wire, ascending. -/
def busyLinks (m : Mesh) : List (Id × Id) :=
  let targetsOf (source : Id) : List Id :=
    (SortedMap.ofList ((m.wire.filter (·.source = source)).map fun t => (t.target, ()))).keys
  (SortedMap.ofList (m.wire.map fun t => (t.source, ()))).keys.flatMap fun source =>
    (targetsOf source).map fun target => (source, target)

/-- Takes the oldest frame of the `k`th busy link, counted around, off the wire. -/
def take (m : Mesh) (k : Nat) : Option (Transit × Mesh) :=
  let links := m.busyLinks
  match links[k % links.length]? with
  | none => none
  | some (source, target) =>
    let isNext (t : Transit) : Bool := t.source = source ∧ t.target = target
    match m.wire.find? isNext with
    | none => none
    | some t => some (t, { m with wire := m.wire.eraseP isNext })

/-- One step at a station, before anything follows from it. -/
def actAt (m : Mesh) (id : Id) (st : Station) : LocalStep → Mesh × Answer
  | .command command =>
    let (server, answer) := st.server.obey command
    (m.set id { st with server }, answer)
  | .neighbour peer label options =>
    let (st, link) := st.obtain label options.capacity options.held
    (m.set id { st with server := st.server.addNeighbour peer link }, .nothing)
  | .client label options =>
    let (server, client) := st.server.mintClientId
    let (st, link) := { st with server }.obtain (label.getD (toString client)) options.capacity
      options.held
    (m.set id { st with server := st.server.addClient client link }, .identity client)
  | .frame label options frame =>
    let (st, link) := st.obtain label options.capacity options.held
    ((m.set id st).arrive id link frame, .nothing)
  | .closed label =>
    match st.named? label with
    | none => (m, .nothing)
    | some line => (m.set id { st with server := st.server.closeLink line.link }, .nothing)
  | .unhold label =>
    match st.named? label with
    | none => (m, .nothing)
    | some line => (m.set id (st.amend line.link ({ · with held := false })), .nothing)
  | .dropQueue label =>
    match st.named? label with
    | none => (m, .nothing)
    | some line => (m.set id (st.dropQueue line.link), .nothing)
  | .closeLine label options =>
    let (st, link) := st.obtain label options.capacity options.held
    let before := (st.lines.find? (·.link = link)).any (·.closed)
    (m.set id (st.amend link ({ · with closed := true })), .closing before true)
  | .start peers =>
    let m := peers.foldl (fun m peer => m.join id peer) m
    (m.updateServer id (·.announce), .nothing)

/-- One step, before anything follows from it, and the server whose state it shows. Nothing happens
if the step names a server that is not there, or if there is no frame on the wire to take. -/
def act (m : Mesh) : Step → Option (Mesh × Answer × Option Id)
  | .at id step =>
    (m.station? id).map fun st =>
      let (m, answer) := m.actAt id st step
      (m, answer, some id)
  | .advance ms =>
    some (m.updateAll (·.advance ms), .flag m.hooks.enabled, none)
  | .enable enabled =>
    some ({ m with hooks := { m.hooks with enabled } }, .flag enabled, none)
  | .pick k =>
    (m.take k).map fun (t, m) =>
      (m.deliver t, .hop t.source t.target t.frame.type, some t.target)
  | .lose k =>
    (m.take k).map fun (t, m) => (m, .hop t.source t.target t.frame.type, some t.target)
  | .cut a b => some (m.sever a b, .nothing, none)

/-- One step with all that follows from it. -/
def step (m : Mesh) (s : Step) : Option (Mesh × Answer × Option Id × Report) :=
  (m.act s).map fun (m, answer, shown) =>
    let (m, report) := m.settle
    (m, answer, shown, report)

/-- Delivers from the front of the wire, at most `n` frames, each with all that follows from it. -/
def run (m : Mesh) : Nat → Mesh × List Transit × Report
  | 0 => (m, [], {})
  | n + 1 =>
    match m.wire with
    | [] => (m, [], {})
    | t :: rest =>
      let (m, report) := ({ m with wire := rest }.deliver t).settle
      let (m, transits, others) := m.run n
      (m, t :: transits, report.append others)

end Mesh

end RelayMesh
