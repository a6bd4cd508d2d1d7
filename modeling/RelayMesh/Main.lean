import RelayMesh.Program

namespace RelayMesh.Program

/-- Obeys console lines. Before each one the server's clock catches up with the time. -/
partial def serve (input : IO.FS.Stream) (s : Server) (now : Nat) : IO Unit := do
  let text ← try input.getLine catch _ => pure ""
  if text.isEmpty then return
  let later ← IO.monoMsNow
  let (s, goesOn) := (s.advance (later - now)).console text
  if goesOn then serve input s later

end RelayMesh.Program

def main (arguments : List String) : IO UInt32 := do
  match RelayMesh.Program.start RelayMesh.Network.silent [] arguments with
  | .error exit =>
    (← IO.getStderr).putStr exit.stderr
    return UInt32.ofNat exit.code
  | .ok server =>
    RelayMesh.Program.serve (← IO.getStdin) server (← IO.monoMsNow)
    return UInt32.ofNat RelayMesh.Program.ended.code
