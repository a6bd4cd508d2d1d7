import RelayMesh.Interception
import RelayMesh.Server.Actions
import RelayMesh.Text.Blank

namespace RelayMesh

structure Withheld where
  interceptor : Interceptor
  msg : Message
deriving DecidableEq

def Condition.holds (c : Condition) (s : Server) : Bool :=
  !c.never && c.number.all (· = s.exclusion.number) && c.phase.all (· = s.exclusion.phase) &&
    c.electionNot.all (· ≠ s.election.status) && c.hasToken.all (· = s.exclusion.token.isSome) &&
    c.minNeighbours.all (· ≤ s.neighbourCount) && c.minClients.all (· ≤ s.clientCount) &&
    c.knows.all s.routes.contains

namespace Server

/-- Passes a message for another server on along its route. -/
def forward (s : Server) (dest : Id) (type : MessageType) (msg : Message) : Server :=
  s.carryOut (.toServer dest type msg)

/-- Runs the action of a message, and drops a message that has none. -/
def perform (s : Server) (type : MessageType) (msg : Message) : Server :=
  match s.execute type msg with
  | .ok s => s
  | .error _ => s

/-- Whom a message is for, if not for this server or for everybody. -/
def otherRecipient? (s : Server) (msg : Message) : Option Id :=
  msg.recipient.filter (· ≠ s.identity)

/-- Handles a message of a neighbour: chat is relayed, a message for another server goes on to it,
one that an interceptor claims is kept back, and the action of any other one is run. -/
def dispatch (hooks : Interception) (s : Server) (type : MessageType) (msg : Message) :
    Server × Option Withheld :=
  if MessageType.isForClients type then (s.relayChat type msg, none)
  else
    match s.otherRecipient? msg with
    | some dest => (s.forward dest type msg, none)
    | none =>
      match hooks.claim s.identity msg with
      | some interceptor => (s, some ⟨interceptor, msg⟩)
      | none => (s.perform type msg, none)

/-- Handles a frame that came over `link`. A frame of an unregistered connection and one without a
message are dropped; from a client, all but chat is dropped too. -/
def handleFrame (hooks : Interception) (s : Server) (link : LinkId) (frame : Frame) :
    Server × Option Withheld :=
  match s.routes.atLink link, frame.message with
  | some (_, route), .ok msg =>
    if route.isClient then
      if MessageType.isForClients frame.type ∧ msg.content.kind = .chat then
        (s.relayChat frame.type msg, none)
      else (s, none)
    else (s.learnRoutes msg route.link).dispatch hooks frame.type msg
  | _, _ => (s, none)

def arrive (hooks : Interception) (s : Server) (link : LinkId) (frame : Frame) :
    Server × Option Withheld :=
  if s.down then (s, none) else s.handleFrame hooks link frame

def closeLink (s : Server) (link : LinkId) : Server :=
  if s.down then s else { s with routes := (s.routes.removeLink link).1 }

def fire (s : Server) (timer : Timer) : Server := s.leave (some timer.stay)

/-- All timers that are due go off. One that was set for a moment in the past is due at once. -/
def expire (s : Server) : Server :=
  let (due, timers) := s.timers.partition (·.due ≤ s.clock)
  due.foldl fire { s with timers }

def advance (s : Server) (ms : Nat) : Server := { s with clock := s.clock + ms }.expire

def shutdown (s : Server) : Server := { s with down := true, timers := [] }

/-- A line is typed on the console. The answer is whether the server goes on. -/
def console (s : Server) (line : String) : Server × Bool :=
  let command := String.ofList (Text.trim line.toList)
  if command = "quit" then (s.shutdown, false)
  else if command = "election" then (s.startElection, true)
  else if command = "critical section" then (s.requestSection, true)
  else (s, true)

def release (s : Server) (withheld : Withheld) : Server :=
  match s.executeMessage withheld.msg with
  | .ok s => s
  | .error _ => s

end Server

end RelayMesh
