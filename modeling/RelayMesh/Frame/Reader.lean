import RelayMesh.Frame

namespace RelayMesh

inductive SourceEvent
  | data (bytes : Bytes)
  | wouldBlock
  | interrupted
  | endOfStream
  | reset
deriving DecidableEq

/-- A source of bytes: the rest of the chunk that is being read, and what comes after it. -/
structure Source where
  chunk : Bytes
  events : List SourceEvent
deriving DecidableEq

inductive ReadOutcome
  | data (bytes : Bytes)
  | pending
  | closed
deriving DecidableEq

namespace Source

/-- Reads the front of a chunk. A chunk without bytes is the end of the stream. -/
def readChunk (n : Nat) (chunk : Bytes) (events : List SourceEvent) : ReadOutcome × Source :=
  if chunk.isEmpty then (.closed, ⟨[], events⟩)
  else (.data (chunk.take n), ⟨chunk.drop n, events⟩)

/-- Reads at most `n` bytes. A source with nothing left is not ready. -/
def read (n : Nat) (s : Source) : ReadOutcome × Source :=
  if s.chunk.isEmpty then
    match s.events with
    | [] => (.pending, s)
    | .data bytes :: events => readChunk n bytes events
    | .wouldBlock :: events => (.pending, ⟨[], events⟩)
    | .interrupted :: events => (.pending, ⟨[], events⟩)
    | .endOfStream :: events => (.closed, ⟨[], events⟩)
    | .reset :: events => (.closed, ⟨[], events⟩)
  else readChunk n s.chunk s.events

/-- All bytes that the source has yet to deliver up to the first end or failure. -/
def upcoming (s : Source) : Bytes :=
  s.chunk ++ go s.events
where
  go : List SourceEvent → Bytes
    | [] => []
    | .data bytes :: events => if bytes.isEmpty then [] else bytes ++ go events
    | .wouldBlock :: events => go events
    | .interrupted :: events => go events
    | .endOfStream :: _ => []
    | .reset :: _ => []

end Source

namespace Reader

/-- What a reader has of the current frame. -/
inductive Progress
  | unstarted
  | header (got : Bytes)
  | body (type : MessageType) (sender : Id) (size : Nat) (got : Bytes)
  | done (frame : Frame)
  | closed
deriving DecidableEq

inductive Status
  | unstarted
  | headerInProgress
  | headerDone
  | bodyInProgress
  | bodyDone
  | closed
deriving DecidableEq, Repr

def Progress.status : Progress → Status
  | unstarted => .unstarted
  | header _ => .headerInProgress
  | body _ _ _ [] => .headerDone
  | body _ _ _ (_ :: _) => .bodyInProgress
  | done _ => .bodyDone
  | closed => .closed

/-- Reads on in a payload of `size` bytes. -/
def readBody (type : MessageType) (sender : Id) (size : Nat) (got : Bytes) (src : Source) :
    Progress × Source :=
  if got.length < size then
    match src.read (size - got.length) with
    | (.data more, src) =>
      let got := got ++ more
      (if got.length < size then .body type sender size got else .done ⟨type, sender, got⟩, src)
    | (.pending, src) => (.body type sender size got, src)
    | (.closed, src) => (.closed, src)
  else (.done ⟨type, sender, got⟩, src)

/-- Reads on in a header, and in the payload once the header is complete. -/
def readHeader (limit : UInt32) (got : Bytes) (src : Source) : Progress × Source :=
  match src.read (Frame.headerSize - got.length) with
  | (.data more, src) =>
    match got ++ more with
    | t₀ :: t₁ :: t₂ :: t₃ :: s₀ :: s₁ :: s₂ :: s₃ :: n₀ :: n₁ :: n₂ :: n₃ :: _ =>
      let size := wordOf n₀ n₁ n₂ n₃
      if limit < size then (.closed, src)
      else readBody (wordOf t₀ t₁ t₂ t₃) (wordOf s₀ s₁ s₂ s₃) size.toNat [] src
    | got => (.header got, src)
  | (.pending, src) => (.header got, src)
  | (.closed, src) => (.closed, src)

def pump (limit : UInt32) (p : Progress) (src : Source) : Progress × Source :=
  match p with
  | .unstarted => readHeader limit [] src
  | .done _ => readHeader limit [] src
  | .header got => readHeader limit got src
  | .body type sender size got => readBody type sender size got src
  | .closed => (.closed, src)

end Reader

/-- A reader of frames with payloads of at most `limit` bytes. -/
structure Reader where
  limit : UInt32
  progress : Reader.Progress
deriving DecidableEq

namespace Reader

def new (limit : UInt32) : Reader := ⟨limit, .unstarted⟩

def status (r : Reader) : Status := r.progress.status

def turn (r : Reader) (src : Source) : Reader × Source :=
  let (progress, src) := pump r.limit r.progress src
  ({ r with progress }, src)

def frame (r : Reader) : Except Fault Frame :=
  match r.progress with
  | .done frame => .ok frame
  | _ => .error .frameNotReady

def decode {α : Type} (r : Reader) (decoder : Wire.Decoder α) : Except Fault α := do
  (← r.frame).decode decoder

end Reader

end RelayMesh
