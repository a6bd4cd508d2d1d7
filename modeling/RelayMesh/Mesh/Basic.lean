import RelayMesh.Station

namespace RelayMesh

/-- A frame on its way between two servers. -/
structure Transit where
  source : Id
  target : Id
  frame : Frame
deriving DecidableEq

/-- Several servers joined by connections. A frame that one server sends to another goes to the end of
the wire and arrives when its turn comes. -/
structure Mesh where
  stations : IdMap Station
  hooks : Interception
  /-- Messages that are kept back, oldest first. -/
  waiting : List Withheld := []
  wire : List Transit := []
deriving DecidableEq

structure Sending where
  source : Id
  line : Line
  frame : Frame
deriving DecidableEq

/-- What followed from a step: the frames sent and the withheld messages given to their servers. -/
structure Report where
  sent : List Sending := []
  delivered : List Withheld := []
deriving DecidableEq

namespace Report

def append (r r' : Report) : Report := ⟨r.sent ++ r'.sent, r.delivered ++ r'.delivered⟩

end Report

namespace Mesh

/-- A mesh of servers without connections. Of two interceptors of one owner with the same name the
first counts. -/
def new (servers : List Id) (config : Config) (interceptors : List Interceptor) (enabled : Bool) :
    Mesh where
  stations := .ofList (servers.map fun id => (id, Station.new id config))
  hooks := interceptors.foldl
    (fun hooks interceptor =>
      match hooks.register interceptor with
      | .ok hooks => hooks
      | .error _ => hooks)
    { enabled }

def station? (m : Mesh) (id : Id) : Option Station := m.stations.get? id

def server? (m : Mesh) (id : Id) : Option Server := (m.station? id).map (·.server)

def set (m : Mesh) (id : Id) (st : Station) : Mesh :=
  { m with stations := m.stations.insert id st }

def update (m : Mesh) (id : Id) (change : Station → Station) : Mesh :=
  match m.station? id with
  | some st => m.set id (change st)
  | none => m

def updateServer (m : Mesh) (id : Id) (change : Server → Server) : Mesh :=
  m.update id fun st => { st with server := change st.server }

def updateAll (m : Mesh) (change : Server → Server) : Mesh :=
  { m with stations := m.stations.mapValues fun st => { st with server := change st.server } }

/-- Empties the queues of one station. What is for another server goes onto the wire. -/
def collectAt (m : Mesh) (id : Id) : Mesh × List Sending :=
  match m.station? id with
  | none => (m, [])
  | some st =>
    let (st, sent) := st.drain
    let transits := sent.filterMap fun (line, frame) =>
      line.peer.map fun peer => (⟨id, peer, frame⟩ : Transit)
    ({ m.set id st with wire := m.wire ++ transits },
      sent.map fun (line, frame) => ⟨id, line, frame⟩)

/-- Empties the queues of the listed stations, in order. -/
def collectEach (m : Mesh) : List Id → Mesh × List Sending
  | [] => (m, [])
  | id :: rest =>
    let (m, sent) := m.collectAt id
    let (m, others) := m.collectEach rest
    (m, sent ++ others)

def expire (m : Mesh) : Mesh := m.updateAll (·.expire)

/-- Empties all queues, servers by ascending identity, once all timers that are due have gone off. -/
def collect (m : Mesh) : Mesh × List Sending :=
  let m := m.expire
  m.collectEach m.stations.keys

def isReady (m : Mesh) (withheld : Withheld) : Bool :=
  match m.server? withheld.interceptor.owner with
  | none => false
  | some s => !s.down && withheld.interceptor.condition.holds s

/-- Gives withheld messages to their servers, always the oldest one that is ready, at most `n`. -/
def giveReady (m : Mesh) : Nat → Mesh × Report
  | 0 => (m, {})
  | n + 1 =>
    match m.waiting.find? m.isReady with
    | none => (m, {})
    | some withheld =>
      let m := { m with waiting := m.waiting.eraseP m.isReady }
      let m := m.updateServer withheld.interceptor.owner (·.release withheld)
      let (m, sent) := m.collect
      let (m, report) := m.giveReady n
      (m, ⟨sent ++ report.sent, withheld :: report.delivered⟩)

def settle (m : Mesh) : Mesh × Report :=
  let (m, sent) := m.collect
  let (m, report) := m.giveReady m.waiting.length
  (m, { report with sent := sent ++ report.sent })

def arrive (m : Mesh) (id : Id) (link : LinkId) (frame : Frame) : Mesh :=
  match m.station? id with
  | none => m
  | some st =>
    let (server, withheld) := st.server.arrive m.hooks link frame
    let m := m.set id { st with server }
    { m with waiting := m.waiting ++ withheld.toList }

/-- A frame that was on the wire arrives, over the connection that now joins the two servers. -/
def deliver (m : Mesh) (t : Transit) : Mesh :=
  match (m.station? t.target).bind (·.lineTo? t.source) with
  | none => m
  | some line => m.arrive t.target line.link t.frame

end Mesh

end RelayMesh
