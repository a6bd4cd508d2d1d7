import RelayMesh.Message

namespace RelayMesh

namespace Election

inductive Status
  | dormant
  | initiator
  | leader
  | nonLeader
deriving DecidableEq, Repr

def Status.text : Status → String
  | .dormant => "dormant"
  | .initiator => "initiator"
  | .leader => "leader"
  | .nonLeader => "non-leader"

end Election

/-- What one server knows of the election. An initiator floods a wave that carries its identity. Servers
take part in the smallest wave they have seen, and answer the server they had it from once all their
neighbours have answered. The initiator whose wave comes back announces itself with a second wave. -/
structure Election where
  own : Id
  /-- The initiator of the wave that the server takes part in. -/
  candidate : Option Id := none
  /-- The neighbour that the wave came from. -/
  parent : Option Id := none
  winner : Option Id := none
  tokenEchoes : Nat := 0
  leaderEchoes : Nat := 0
  status : Election.Status := .dormant
deriving DecidableEq

namespace Election

def isLeader (e : Election) : Bool := e.status = .leader

def tokenMessage (e : Election) (initiator : Id) : Message :=
  .new e.own (.electionToken initiator)

def leaderMessage (e : Election) (initiator : Id) : Message :=
  .new e.own (.electionLeader initiator)

/-- Whether a wave with a smaller or equal initiator has been joined. -/
def isOutbid (e : Election) (initiator : Id) : Bool :=
  match e.candidate with
  | none => false
  | some wave => wave ≤ initiator

/-- Starts a wave of this server, unless the election is over or a wave that wins against it has
come by. A server without neighbours wins at once. -/
def start (e : Election) (neighbours : Nat) : Election × List Outgoing :=
  if e.winner.isSome || e.isOutbid e.own then (e, [])
  else
    let e := { e with
      status := .initiator, candidate := some e.own, parent := none, tokenEchoes := 0 }
    if neighbours = 0 then ({ e with winner := some e.own, status := .leader }, [])
    else (e, [.flood none MessageType.electionToken (e.tokenMessage e.own)])

/-- Joins the wave of `initiator` if it is smaller than the one joined so far, and floods it on. -/
def join (e : Election) (sender initiator : Id) : Election × List Outgoing :=
  if e.isOutbid initiator then (e, [])
  else
    ({ e with candidate := some initiator, tokenEchoes := 0, parent := some sender },
      [.flood (some sender) MessageType.electionToken (e.tokenMessage initiator)])

/-- What a server sends when all its neighbours have answered to a wave. -/
def finishWave (e : Election) (initiator : Id) : List Outgoing :=
  if initiator = e.own then
    [.flood none MessageType.electionLeader (e.leaderMessage e.own)]
  else
    match e.parent with
    | some parent => [.toServer parent MessageType.electionToken (e.tokenMessage initiator)]
    | none => []

/-- Counts an answer to the wave of `initiator`, if the server takes part in it. -/
def countEcho (e : Election) (initiator : Id) (neighbours : Nat) : Election × List Outgoing :=
  if e.candidate = some initiator then
    let e := { e with tokenEchoes := e.tokenEchoes + 1 }
    (e, if e.tokenEchoes = neighbours then e.finishWave initiator else [])
  else (e, [])

def onToken (e : Election) (sender initiator : Id) (neighbours : Nat) :
    Election × List Outgoing :=
  let (e, joined) := e.join sender initiator
  let (e, finished) := e.countEcho initiator neighbours
  (e, joined ++ finished)

/-- An announcement of `initiator` as the winner has come. The first one is passed on, and the
election is over for this server once all its neighbours have sent one. -/
def onLeader (e : Election) (initiator : Id) (neighbours : Nat) : Election × List Outgoing :=
  let relayed :=
    if e.leaderEchoes = 0 ∧ initiator ≠ e.own then
      [.flood none MessageType.electionLeader (e.leaderMessage initiator)]
    else []
  let e := { e with leaderEchoes := e.leaderEchoes + 1, winner := some initiator }
  if e.leaderEchoes = neighbours then
    ({ e with status := if initiator = e.own then .leader else .nonLeader }, relayed)
  else (e, relayed)

end Election

end RelayMesh
