import RelayMesh.Wire.Payload

namespace RelayMesh

/-- One frame. Its sender is the entity at the other end of the connection, which need not be the
one that the message in it comes from. -/
structure Frame where
  type : MessageType
  sender : Id
  payload : Bytes
deriving DecidableEq

def maxWord : Nat := 4294967295

/-- A number of 32 bits in four bytes, most significant first. -/
def wordBytes (w : UInt32) : Bytes :=
  [UInt8.ofNat (w.toNat / 16777216), UInt8.ofNat (w.toNat / 65536 % 256),
    UInt8.ofNat (w.toNat / 256 % 256), UInt8.ofNat (w.toNat % 256)]

/-- The number that four bytes spell, most significant first. -/
def wordOf (a b c d : UInt8) : UInt32 :=
  UInt32.ofNat (a.toNat * 16777216 + b.toNat * 65536 + c.toNat * 256 + d.toNat)

theorem wordOf_wordBytes (w : UInt32) :
    wordOf (UInt8.ofNat (w.toNat / 16777216)) (UInt8.ofNat (w.toNat / 65536 % 256))
      (UInt8.ofNat (w.toNat / 256 % 256)) (UInt8.ofNat (w.toNat % 256)) = w := by
  have hw := w.toNat_lt
  apply UInt32.toNat_inj.1
  simp only [wordOf, UInt8.toNat_ofNat', UInt32.toNat_ofNat']
  omega

namespace Frame

/-- The bytes of a header: type, sender and payload size, each a number of 32 bits. -/
def headerSize : Nat := 12

def checkSize (limit : UInt32) (size : Nat) : Except Fault Unit :=
  if limit.toNat < size then .error (.messageTooLarge (min size maxWord)) else .ok ()

theorem checkSize_eq_ok_iff {limit : UInt32} {size : Nat} {u : Unit} :
    checkSize limit size = .ok u ↔ size ≤ limit.toNat := by
  unfold checkSize
  split <;> simp <;> omega

theorem checkSize_eq_error_iff {limit : UInt32} {size : Nat} {why : Fault} :
    checkSize limit size = .error why ↔
      limit.toNat < size ∧ why = .messageTooLarge (min size maxWord) := by
  unfold checkSize
  split
  next h => simp [h, eq_comm]
  next h => simp [h]

def ofMessage (type : MessageType) (sender : Id) (msg : Message) (limit : UInt32) :
    Except Fault Frame := do
  let payload := Wire.encodeMessage msg
  checkSize limit payload.length
  return ⟨type, sender, payload⟩

theorem ofMessage_eq_ok_iff {type : MessageType} {sender : Id} {msg : Message} {limit : UInt32}
    {f : Frame} : ofMessage type sender msg limit = .ok f ↔
      (Wire.encodeMessage msg).length ≤ limit.toNat ∧ f = ⟨type, sender, Wire.encodeMessage msg⟩ := by
  simp only [ofMessage, Fault.bind_eq_ok_iff, checkSize_eq_ok_iff]
  constructor
  · rintro ⟨⟨⟩, hle, ⟨⟩⟩
    exact ⟨hle, rfl⟩
  · rintro ⟨hle, rfl⟩
    exact ⟨(), hle, rfl⟩

theorem ofMessage_eq_error_iff {type : MessageType} {sender : Id} {msg : Message} {limit : UInt32}
    {why : Fault} : ofMessage type sender msg limit = .error why ↔
      limit.toNat < (Wire.encodeMessage msg).length ∧
        why = .messageTooLarge (min (Wire.encodeMessage msg).length maxWord) := by
  simp only [ofMessage, Fault.bind_eq_error_iff, checkSize_eq_error_iff]
  constructor
  · rintro (h | ⟨_, -, ⟨⟩⟩)
    exact h
  · exact .inl

def decode {α : Type} (f : Frame) (decoder : Wire.Decoder α) : Except Fault α :=
  (decoder.value f.payload).mapError .badPayload

def message (f : Frame) : Except Fault Message := f.decode Wire.Decoder.message

/-- The first frame of a connection, with the identity that `sender` announces. -/
def handshake (sender id : Id) : Frame := ⟨MessageType.handshake, sender, Wire.encodeId id⟩

/-- The identity that the first frame of a connection announces. -/
def announced (f : Frame) : Except Fault Id :=
  if f.type = MessageType.handshake then f.decode Wire.Decoder.id
  else .error (.handshakeFailed (.wrongType f.type))

def bytes (f : Frame) : Bytes :=
  wordBytes f.type ++ wordBytes f.sender ++ wordBytes (UInt32.ofNat f.payload.length) ++ f.payload

/-- Appends the frame to what is still to be written, unless its payload is above the limit. -/
def write (limit : UInt32) (f : Frame) (buffer : Bytes) : Except Fault Bytes := do
  checkSize limit f.payload.length
  return buffer ++ f.bytes

/-- What stands at the front of a stream. -/
inductive Front
  | complete (frame : Frame) (rest : Bytes)
  | incomplete
  | tooLarge
deriving DecidableEq

/-- Splits the first frame off a stream. A header that announces more than the limit is refused
before its payload is there. -/
def first (limit : UInt32) : Bytes → Front
  | t₀ :: t₁ :: t₂ :: t₃ :: s₀ :: s₁ :: s₂ :: s₃ :: n₀ :: n₁ :: n₂ :: n₃ :: rest =>
    let size := wordOf n₀ n₁ n₂ n₃
    if limit < size then .tooLarge
    else if size.toNat ≤ rest.length then
      .complete ⟨wordOf t₀ t₁ t₂ t₃, wordOf s₀ s₁ s₂ s₃, rest.take size.toNat⟩
        (rest.drop size.toNat)
    else .incomplete
  | _ => .incomplete

theorem length_lt_of_first {limit : UInt32} {stream rest : Bytes} {f : Frame}
    (h : first limit stream = .complete f rest) : rest.length < stream.length := by
  unfold first at h
  split at h
  next =>
    dsimp only at h
    split at h
    · simp at h
    · split at h
      · simp only [Front.complete.injEq] at h
        obtain ⟨_, rfl⟩ := h
        simp only [List.length_drop, List.length_cons]
        omega
      · simp at h
  next => simp at h

/-- How a stream goes on after its complete frames. -/
inductive Ending
  | incomplete (rest : Bytes)
  | tooLarge
deriving DecidableEq

/-- The complete frames of a stream, up to a header that announces too much. -/
def parse (limit : UInt32) (stream : Bytes) : List Frame × Ending :=
  match h : first limit stream with
  | .complete f rest =>
    have := length_lt_of_first h
    let (frames, ending) := parse limit rest
    (f :: frames, ending)
  | .incomplete => ([], .incomplete stream)
  | .tooLarge => ([], .tooLarge)
termination_by stream.length

end Frame

end RelayMesh
