import RelayMesh.Site

namespace RelayMesh.Program

/-- How the program ends: its exit code, and what it has written to standard error. -/
structure Exit where
  code : Nat
  stderr : String
deriving DecidableEq, Repr

def badArguments (why : Fault) : Exit := ⟨2, why.message ++ "\n"⟩

def notStarted : Exit := ⟨1, ""⟩

def ended : Exit := ⟨0, ""⟩

/-- Brings the server up on a host where some ports are in use. -/
def start (network : Network) (occupied : List Nat) (arguments : List String) :
    Except Exit Server := do
  let startup ← (Startup.ofArguments arguments).mapError badArguments
  let site ← (({ config := startup.config, network, occupied } : Site).start startup).mapError
    fun _ => notStarted
  match site.servers.get? startup.identity with
  | some server => pure server
  | none => throw notStarted

/-- Reads one line of console input. Input that is no text ends the session, as `quit` does. -/
def line (s : Server) (input : Bytes) : Server × Bool :=
  match String.fromUTF8? ⟨input.toArray⟩ with
  | none => (s, false)
  | some text => s.console text

def console (s : Server) : List Bytes → Server
  | [] => s.shutdown
  | input :: rest =>
    let (s, goesOn) := line s input
    if goesOn then console s rest else s.shutdown

def lines (input : Bytes) : List Bytes := input.splitOn (UInt8.ofNat 10)

def run (network : Network) (occupied : List Nat) (arguments : List String) (input : Bytes) :
    Exit :=
  match start network occupied arguments with
  | .error exit => exit
  | .ok server => if (console server (lines input)).down then ended else notStarted

end RelayMesh.Program
