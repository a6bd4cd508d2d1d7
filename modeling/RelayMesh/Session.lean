import RelayMesh.Server.Events

namespace RelayMesh

/-- What has come in on a connection: all bytes so far, and whether that is all there will be. -/
structure Incoming where
  bytes : Bytes
  ended : Bool
deriving DecidableEq

inductive Caller
  | client
  | server
deriving DecidableEq, Repr

/-- How a server takes one incoming connection. A client gets an identity at once, another server is
registered when its first frame has announced it. -/
structure Session where
  result : Except Fault Unit
  /-- The server right after it has accepted or refused. -/
  server : Server
  written : Bytes := []
  /-- The frames read after the handshake. -/
  inbound : List Frame := []

namespace Session

/-- What is written of the frames that wait on a connection. One above the limit ends it. -/
def write (limit : UInt32) : List Frame → Bytes
  | [] => []
  | frame :: rest =>
    match frame.write limit [] with
    | .ok bytes => bytes ++ write limit rest
    | .error _ => []

/-- The frames that find room in the queue of the connection. -/
def queued (capacity : Nat) (frames : List Frame) : List Frame :=
  (frames.foldl (fun (queue : SendQueue) frame => (queue.push frame).toOption.getD queue)
    { capacity }).frames

def refuse (s : Server) (why : Fault) : Session := { result := .error why, server := s }

/-- Accepts a client: gives it an identity, and registers it once that is written. -/
def acceptClient (s : Server) (link : LinkId) (input : Incoming) (sends : List Frame) : Session :=
  let limit := s.config.maxMessageSize
  let (s, id) := s.mintClientId
  match (Frame.handshake s.identity id).write limit [] with
  | .error why => refuse s why
  | .ok greeting =>
    { result := .ok ()
      server := s.addClient id link
      written := greeting ++ write limit (queued s.config.sendQueueCapacity sends)
      inbound := (Frame.parse limit input.bytes).1 }

/-- Why there is no handshake among the frames that came in. -/
def missing (ending : Frame.Ending) (ended : Bool) : Fault :=
  match ending with
  | .tooLarge => .connectionClosed
  | .incomplete _ => if ended then .connectionClosed else .handshakeTimeout

/-- Accepts another server: passes over frames up to its handshake, and registers it. -/
def acceptServer (s : Server) (link : LinkId) (input : Incoming) (sends : List Frame) : Session :=
  let limit := s.config.maxMessageSize
  let (frames, ending) := Frame.parse limit input.bytes
  match frames.dropWhile (·.type ≠ MessageType.handshake) with
  | [] => refuse s (missing ending input.ended)
  | first :: rest =>
    match first.announced with
    | .error why => refuse s why
    | .ok peer =>
      if peer = s.identity then refuse s (.handshakeFailed .ownIdentity)
      else
        { result := .ok ()
          server := s.addNeighbour peer link
          written := write limit (queued s.config.sendQueueCapacity sends)
          inbound := rest }

/-- Accepts a connection of a server that knows neighbours already. What is to be sent on it is
sent only if the other end has not closed it before. -/
def accept (caller : Caller) (s : Server) (known : List Id) (input : Incoming)
    (sends : List Frame) : Session :=
  let s := known.zipIdx.foldl (fun s (id, link) => s.addNeighbour id link) s
  let sends := if input.ended then [] else sends
  match caller with
  | .client => acceptClient s known.length input sends
  | .server => acceptServer s known.length input sends

end Session

end RelayMesh
