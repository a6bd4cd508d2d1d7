import RelayMesh.Fault

namespace RelayMesh

/-- Settings; times are in milliseconds. -/
structure Config where
  /-- Clients of server `n` connect to this port plus `n`, servers to a hundred above that. -/
  basePort : UInt16 := 2050
  handshakeTimeout : Nat := 5000
  /-- How many frames may wait on one connection. -/
  sendQueueCapacity : Nat := 1024
  interceptPollInterval : Nat := 100
  /-- How long a stay in the critical section lasts; 0 for one that ends on request only. -/
  criticalSection : Nat := 100
  maxMessageSize : UInt32 := 1024 * 1024
deriving DecidableEq, Repr, Inhabited

namespace Config

/-- Names the first setting that is zero and must not be. -/
def validate (c : Config) : Except Fault Unit :=
  let refuse (setting : Setting) : Except Fault Unit :=
    .error (.invalidArgument (.zeroSetting setting))
  if c.basePort = 0 then refuse .basePort
  else if c.handshakeTimeout = 0 then refuse .handshakeTimeout
  else if c.sendQueueCapacity = 0 then refuse .sendQueueCapacity
  else if c.interceptPollInterval = 0 then refuse .interceptPollInterval
  else if c.maxMessageSize = 0 then refuse .maxMessageSize
  else .ok ()

def maxPort : Nat := 65535

/-- How far the port for servers lies above the one for clients. -/
def serverPortOffset : Nat := 100

def port (server : Id) (number : Nat) : Except Fault Nat :=
  if number ≤ maxPort then .ok number else .error (.invalidArgument (.noPort server))

def clientPort (c : Config) (server : Id) : Except Fault Nat :=
  port server (c.basePort.toNat + server.toNat)

def serverPort (c : Config) (server : Id) : Except Fault Nat :=
  port server (c.basePort.toNat + server.toNat + serverPortOffset)

theorem port_eq_ok_iff {server : Id} {number p : Nat} :
    port server number = .ok p ↔ number = p ∧ number ≤ maxPort := by
  unfold port
  split <;> grind

end Config

end RelayMesh
