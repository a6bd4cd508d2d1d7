import RelayMesh.Message

namespace RelayMesh

namespace Exclusion

inductive Phase
  | outside
  | waiting
  | inside
deriving DecidableEq, Repr

def Phase.text : Phase → String
  | .outside => "out"
  | .waiting => "waiting"
  | .inside => "in"

end Exclusion

/-- What one server knows of requests and the token. Requests are flooded with a number of the sender's
own count. The token records the number of every server's last satisfied request, and who has it outside
the critical section hands it to any server with a newer one. -/
structure Exclusion where
  own : Id
  /-- The number of the server's last request. -/
  number : Nat := 0
  /-- The newest request known of every other server. -/
  requests : IdMap Nat := SortedMap.empty
  token : Option Token := none
  phase : Exclusion.Phase := .outside
  minted : Bool := false
deriving DecidableEq

namespace Exclusion

/-- What follows from a step: sends, and whether the server has entered the critical section. -/
structure Outcome where
  sends : List Outgoing := []
  entered : Bool := false
deriving DecidableEq

/-- The newest request known of `id`; 0 if there is none. -/
def requestOf (x : Exclusion) (id : Id) : Nat := (x.requests.get? id).getD 0

/-- Gives the token, with the server's own last request on it, to `dest`. -/
def handOff (x : Exclusion) (dest : Id) : Exclusion × List Outgoing :=
  match x.token with
  | none => (x, [])
  | some token =>
    let content := .mutexToken x.number (token.setEntry x.own x.number)
    ({ x with token := none },
      [.toServer dest MessageType.mutexToken ((Message.new x.own content).addressedTo dest)])

/-- The first server, by ascending identity, with a request that the token does not record as
satisfied. -/
def firstPending (requests : IdMap Nat) (token : Token) : Option Id :=
  (requests.toList.find? (fun b => token.entry b.1 < b.2)).map (·.1)

/-- Hands the token to the first server that waits for it. -/
def passOn (x : Exclusion) : Exclusion × List Outgoing :=
  match x.token.bind (firstPending x.requests) with
  | none => (x, [])
  | some dest => x.handOff dest

/-- The server wants to enter. It does so at once if the token lies idle here. -/
def request (x : Exclusion) : Exclusion × Outcome :=
  if x.phase ≠ .outside then (x, {})
  else if x.token.isSome then ({ x with phase := .inside }, { entered := true })
  else
    let x := { x with number := x.number + 1, phase := .waiting }
    (x, { sends := [.flood none MessageType.mutexRequest (.new x.own (.mutexRequest x.number))] })

/-- The token has come. A second one is dropped. -/
def onToken (x : Exclusion) (token : Token) : Exclusion × Outcome :=
  if x.token.isSome then (x, {})
  else
    let x := { x with token := some token }
    if x.phase = .waiting then ({ x with phase := .inside }, { entered := true })
    else
      let (x, sends) := x.passOn
      (x, { sends })

def mint (x : Exclusion) : Exclusion × Outcome :=
  if x.minted then (x, {}) else { x with minted := true }.onToken .fresh

/-- Takes note of request `number` of `msg.sender`, and floods the message on if it is news. -/
def noteRequest (x : Exclusion) (number : Nat) (msg : Message) : Exclusion × List Outgoing :=
  if x.requestOf msg.sender < number then
    ({ x with requests := x.requests.insert msg.sender number },
      [.flood none MessageType.mutexRequest msg])
  else (x, [])

/-- Hands an idle token to `requester` if its newest request is not satisfied yet. -/
def serve (x : Exclusion) (requester : Id) : Exclusion × List Outgoing :=
  match x.token with
  | none => (x, [])
  | some token =>
    if x.phase = .outside ∧ token.entry requester < x.requestOf requester then x.handOff requester
    else (x, [])

def onRequest (x : Exclusion) (msg : Message) : Exclusion × List Outgoing :=
  match msg.content with
  | .mutexRequest number =>
    if msg.sender = x.own then (x, [])
    else
      let (x, relayed) := x.noteRequest number msg
      let (x, served) := x.serve msg.sender
      (x, relayed ++ served)
  | _ => (x, [])

def release (x : Exclusion) : Exclusion × List Outgoing :=
  if x.phase = .inside then { x with phase := .outside }.passOn else (x, [])

end Exclusion

end RelayMesh
