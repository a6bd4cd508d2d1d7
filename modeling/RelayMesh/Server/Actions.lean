import RelayMesh.Server.Basic

namespace RelayMesh.Server

/-- The longest time that a timer is set for, which is thirty years of 365 days. -/
def longestDelay : Nat := 30 * 365 * 24 * 60 * 60 * 1000

/-- The last moment that a timer is set for. Moments are milliseconds in 64 bits, and the two
largest numbers are none. -/
def lastMoment : Nat := UInt64.size - 3

/-- Sets the timer for the end of the current stay, unless stays only end on request. -/
def armTimer (s : Server) : Server :=
  if s.config.criticalSection = 0 ∨ s.down then s
  else
    let due := min (s.clock + min s.config.criticalSection longestDelay) lastMoment
    { s with timers := s.timers ++ [⟨s.stays, due⟩] }

def enter (s : Server) : Server := armTimer { s with stays := s.stays + 1 }

def applyExclusion (s : Server) (step : Exclusion × Exclusion.Outcome) : Server :=
  let s := { s with exclusion := step.1 }.carryOutAll step.2.sends
  if step.2.entered then s.enter else s

/-- Takes over a step of the election. A leader makes the token. -/
def applyElection (s : Server) (step : Election × List Outgoing) : Server :=
  let s := { s with election := step.1 }.carryOutAll step.2
  if s.election.isLeader then s.applyExclusion s.exclusion.mint else s

def startElection (s : Server) : Server := s.applyElection (s.election.start s.neighbourCount)

def requestSection (s : Server) : Server := s.applyExclusion s.exclusion.request

/-- Leaves the critical section, if `stay` names the current stay or none at all. -/
def leave (s : Server) (stay : Option Nat) : Server :=
  if stay.all (· = s.stays) then
    let (exclusion, sends) := s.exclusion.release
    { s with exclusion }.carryOutAll sends
  else s

/-- Refuses a message of another kind than the one registered under `type`. -/
def mismatch (type : MessageType) (expected : Kind) (msg : Message) : Except Fault Server :=
  .error (.contentMismatch type expected msg.content.kind)

def receiveIdentity (s : Server) (msg : Message) : Except Fault Server :=
  .ok (s.flood none MessageType.identity { msg with recipient := none }).1

def receiveElectionToken (s : Server) (msg : Message) : Except Fault Server :=
  match msg.content with
  | .electionToken initiator =>
    .ok (s.applyElection (s.election.onToken msg.sender initiator s.neighbourCount))
  | _ => mismatch MessageType.electionToken .electionToken msg

def receiveElectionLeader (s : Server) (msg : Message) : Except Fault Server :=
  match msg.content with
  | .electionLeader initiator =>
    .ok (s.applyElection (s.election.onLeader initiator s.neighbourCount))
  | _ => mismatch MessageType.electionLeader .electionLeader msg

def receiveMutexRequest (s : Server) (msg : Message) : Except Fault Server :=
  match msg.content with
  | .mutexRequest _ =>
    let (exclusion, sends) := s.exclusion.onRequest msg
    .ok ({ s with exclusion }.carryOutAll sends)
  | _ => mismatch MessageType.mutexRequest .mutexRequest msg

def receiveMutexToken (s : Server) (msg : Message) : Except Fault Server :=
  match msg.content with
  | .mutexToken _ token => .ok (s.applyExclusion (s.exclusion.onToken token))
  | _ => mismatch MessageType.mutexToken .mutexToken msg

def receive (s : Server) (kind : Kind) (msg : Message) : Except Fault Server :=
  match kind with
  | .identity => s.receiveIdentity msg
  | .electionToken => s.receiveElectionToken msg
  | .electionLeader => s.receiveElectionLeader msg
  | .mutexRequest => s.receiveMutexRequest msg
  | .mutexToken => s.receiveMutexToken msg
  | .chat => .error (.internal (.noAction .chat))

/-- Runs the action that is registered under `type`, if the message has the content for it. -/
def execute (s : Server) (type : MessageType) (msg : Message) : Except Fault Server :=
  match Action.ofType? type with
  | none => .error (.unknownMessageType type)
  | some action =>
    if msg.content.kind = action.kind then s.receive action.kind msg
    else mismatch type action.kind msg

def executeMessage (s : Server) (msg : Message) : Except Fault Server :=
  match Action.ofKind? msg.content.kind with
  | none => .error (.internal (.noAction msg.content.kind))
  | some action => s.execute action.type msg

end RelayMesh.Server
