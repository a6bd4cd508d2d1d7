import RelayMesh.Outbox

namespace RelayMesh

structure ChatLine where
  sender : Id
  sequence : Nat
  text : String
deriving DecidableEq, Repr

/-- A chat participant attached to one server. It numbers its lines from 0 and collects the lines of
others. -/
structure Client where
  identity : Id
  server : Id
  /-- The largest payload that the client sends. -/
  limit : UInt32
  /-- What waits on the connection; none once the connection takes no frames any more. -/
  queue : Option SendQueue
  nextSequence : Nat := 0
  received : List ChatLine := []
  listening : Bool := true
deriving DecidableEq

namespace Client

/-- Sends a line, and answers its number. A line that is not sent takes no number. -/
def sendChat (c : Client) (text : String) : Except Fault (Client × Nat) := do
  let msg := Message.new c.identity (.chat c.nextSequence text)
  let frame ← Frame.ofMessage MessageType.chat c.identity msg c.limit
  match c.queue with
  | none => .error (.connectionFailed .queueGone)
  | some queue =>
    let queue ← queue.push frame
    return ({ c with queue := some queue, nextSequence := c.nextSequence + 1 }, c.nextSequence)

def sentCount (c : Client) : Nat := c.nextSequence

/-- A frame arrives. Only chat of others is kept. -/
def arrive (c : Client) (frame : Frame) : Client :=
  if c.listening then
    match frame.message with
    | .ok ⟨sender, _, _, .chat sequence text⟩ =>
      if sender = c.identity then c
      else { c with received := c.received ++ [⟨sender, sequence, text⟩] }
    | _ => c
  else c

def drain (c : Client) : Client × List Frame :=
  match c.queue with
  | none => (c, [])
  | some queue => ({ c with queue := some { queue with frames := [] } }, queue.frames)

/-- Stops listening, because the connection has ended or the participant leaves. -/
def close (c : Client) : Client := { c with listening := false }

end Client

end RelayMesh
