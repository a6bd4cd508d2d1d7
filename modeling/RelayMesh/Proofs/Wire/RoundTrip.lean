import RelayMesh.Proofs.Wire.Reading

namespace RelayMesh

namespace Frame

/-- A payload with more bytes than the limit is refused. -/
theorem ofMessage_of_lt (type : MessageType) (sender : Id) {msg : Message} {limit : UInt32}
    (h : limit.toNat < (Wire.encodeMessage msg).length) :
    ofMessage type sender msg limit =
      .error (.messageTooLarge (min (Wire.encodeMessage msg).length maxWord)) :=
  ofMessage_eq_error_iff.2 ⟨h, rfl⟩

theorem ofMessage_of_le (type : MessageType) (sender : Id) {msg : Message} {limit : UInt32}
    (h : (Wire.encodeMessage msg).length ≤ limit.toNat) :
    ofMessage type sender msg limit = .ok ⟨type, sender, Wire.encodeMessage msg⟩ :=
  ofMessage_eq_ok_iff.2 ⟨h, rfl⟩

/-- What follows the bytes of a message in a payload is not read. -/
theorem message_append {type : MessageType} {sender : Id} {msg : Message} {limit : UInt32}
    (hf : msg.Fits) (h : (Wire.encodeMessage msg).length ≤ limit.toNat) (extra : Bytes) :
    (⟨type, sender, Wire.encodeMessage msg ++ extra⟩ : Frame).message = .ok msg := by
  have hword : limit.toNat < Wire.Varint.capacity 64 :=
    Nat.lt_trans limit.toNat_lt (by decide)
  have hread := Wire.Decoder.message_of_fits hf (Nat.lt_of_le_of_lt h hword) extra
  unfold message decode Wire.Decoder.value
  rw [hread]
  rfl

theorem announced_handshake (sender id : Id) : (handshake sender id).announced = .ok id := by
  have hread := Wire.Decoder.id_encodeId id []
  rw [List.append_nil] at hread
  have hdecode : (handshake sender id).decode Wire.Decoder.id = .ok id := by
    unfold decode Wire.Decoder.value
    rw [show (handshake sender id).payload = Wire.encodeId id from rfl, hread]
    rfl
  exact (if_pos rfl).trans hdecode

/-- A frame takes a message exactly if the message has no more bytes than the limit. The message is
read back from them and from any longer payload that starts with them. -/
theorem message_round_trip (type : MessageType) (sender : Id) (msg : Message) (limit : UInt32)
    (hf : msg.Fits) :
    let size := (Wire.encodeMessage msg).length
    (size ≤ limit.toNat → ∃ f, ofMessage type sender msg limit = .ok f ∧
      f.type = type ∧ f.sender = sender ∧ f.payload = Wire.encodeMessage msg ∧
        f.message = .ok msg ∧
          ∀ extra, ({ f with payload := f.payload ++ extra } : Frame).message = .ok msg) ∧
    (limit.toNat < size →
      ofMessage type sender msg limit = .error (.messageTooLarge (min size maxWord))) ∧
    ∀ source id, (handshake source id).announced = .ok id := by
  intro size
  refine ⟨fun hsize => ?_, ofMessage_of_lt type sender, announced_handshake⟩
  have hread : ∀ extra, (⟨type, sender, Wire.encodeMessage msg ++ extra⟩ : Frame).message =
      .ok msg := message_append hf hsize
  have hexact := hread []
  rw [List.append_nil] at hexact
  exact ⟨_, ofMessage_of_le type sender hsize, rfl, rfl, rfl, hexact, hread⟩

/-- Every number in it is as large as it can be, or one that just takes another byte. -/
def widest : Message where
  sender := 4294967295
  path := [127, 128, 16383, 16384]
  recipient := some 268435456
  content := .mutexToken 18446744073709551615
    (.ofList [(4294967295, 18446744073709551615), (0, 9223372036854775808)])

theorem message_round_trip_widest :
    widest.Fits ∧ (Wire.encodeMessage widest).length = 58 ∧
      (∃ f, ofMessage MessageType.mutexToken 3 widest 58 = .ok f ∧ f.message = .ok widest) ∧
        ofMessage MessageType.mutexToken 3 widest 57 = .error (.messageTooLarge 58) := by
  have hf : widest.Fits := ⟨by decide, by decide⟩
  have hsize : (Wire.encodeMessage widest).length = 58 := by decide +kernel
  obtain ⟨f, hwritten, -, -, -, hread, -⟩ :=
    (message_round_trip MessageType.mutexToken 3 widest 58 hf).1 (hsize ▸ by decide)
  have hrefused := (message_round_trip MessageType.mutexToken 3 widest 57 hf).2.1
    (hsize ▸ by decide)
  rw [hsize] at hrefused
  exact ⟨hf, hsize, ⟨f, hwritten, hread⟩, hrefused⟩

end Frame

end RelayMesh
