import RelayMesh.Frame
import Mathlib.Algebra.BigOperators.Group.List.Lemmas
import Mathlib.Algebra.Order.BigOperators.Group.List
import Mathlib.Algebra.Group.Action.Defs
import Mathlib.Algebra.Order.Ring.Nat
import Mathlib.Data.List.Perm.Subperm

namespace RelayMesh

namespace Wire

namespace Varint

/-- A number that does not fit the width is not read. -/
theorem decode_encode_of_le {bits n : Nat} (h : capacity bits ≤ n) (rest : Bytes) :
    decode bits (encode n ++ rest) = .error .badVarint := by
  induction n using Nat.strongRecOn generalizing bits with
  | ind n ih =>
    by_cases hbits : bits ≤ 7
    · have hcap := capacity_le hbits
      by_cases hn : n < 128
      · have hb : (UInt8.ofNat n).toNat = n := by rw [UInt8.toNat_ofNat']; omega
        simp [encode_of_lt hn, decode, hbits, hb, Nat.not_lt.2 h]
      · have hb : (UInt8.ofNat (n % 128 + 128)).toNat = n % 128 + 128 := by
          rw [UInt8.toNat_ofNat']; omega
        have hlarge : ¬ n % 128 + 128 < capacity bits := by omega
        rw [encode_of_le (Nat.not_lt.1 hn)]
        simp only [List.cons_append, decode, hb]
        rw [if_pos hbits, if_neg hlarge]
    · have hsplit := capacity_split (Nat.not_le.1 hbits)
      have hpos := capacity_pos (bits - 7)
      have hn : 128 ≤ n := by omega
      have hhigh : capacity (bits - 7) ≤ n / 128 := by omega
      have hb : (UInt8.ofNat (n % 128 + 128)).toNat = n % 128 + 128 := by
        rw [UInt8.toNat_ofNat']; omega
      rw [encode_of_le hn]
      simp only [List.cons_append, decode, hb]
      rw [if_neg hbits, if_neg (by omega), ih (n / 128) (by omega) hhigh]

/-- Whatever follows a number that was written, no other number is read. -/
theorem eq_of_decode_encode {bits n k : Nat} {rest left : Bytes}
    (h : decode bits (encode n ++ rest) = .ok (k, left)) : k = n := by
  by_cases hn : n < capacity bits
  · rw [decode_encode hn] at h
    cases h
    rfl
  · rw [decode_encode_of_le (Nat.not_lt.1 hn)] at h
    cases h

end Varint

open Varint

/-- Values that take at least a byte each take as many bytes as there are values. -/
theorem length_le_flatMap {α : Type} (write : α → Bytes) (l : List α)
    (h : ∀ a ∈ l, 0 < (write a).length) : l.length ≤ (l.flatMap write).length := by
  induction l with
  | nil => exact Nat.le_refl 0
  | cons a l ih =>
    have hfirst := h a List.mem_cons_self
    have hrest := ih fun b hb => h b (List.mem_cons_of_mem _ hb)
    simp only [List.flatMap_cons, List.length_append, List.length_cons]
    omega

namespace Decoder

variable {α β : Type} {d : Decoder α} {next : α → Decoder β} {input rest : Bytes} {a : α}

/-- A reader that goes on goes on with what was left. -/
theorem bind_of_ok (h : d input = .ok (a, rest)) : (d >>= next) input = next a rest := by
  simp [bind, StateT.bind, Except.bind, h]

theorem exists_of_bind {b : β} {left : Bytes} (h : (d >>= next) input = .ok (b, left)) :
    ∃ a rest, d input = .ok (a, rest) ∧ next a rest = .ok (b, left) := by
  simp only [bind, StateT.bind, Except.bind] at h
  cases hd : d input with
  | error why => simp [hd] at h
  | ok read => exact ⟨read.1, read.2, rfl, by simpa [hd] using h⟩

theorem id_encodeId (id : Id) (rest : Bytes) :
    Decoder.id (encodeId id ++ rest) = .ok (id, rest) := by
  have hlt : id.toNat < capacity 32 := id.toNat_lt
  have h : number 32 (encodeId id ++ rest) = .ok (id.toNat, rest) := decode_encode hlt rest
  rw [Decoder.id, bind_of_ok h, UInt32.ofNat_toNat]
  rfl

theorem times_flatMap {write : α → Bytes} {l : List α}
    (h : ∀ a ∈ l, ∀ rest, d (write a ++ rest) = .ok (a, rest)) (rest : Bytes) :
    times d l.length (l.flatMap write ++ rest) = .ok (l, rest) := by
  induction l with
  | nil => rfl
  | cons a l ih =>
    have hrest := ih fun a ha => h a (List.mem_cons_of_mem _ ha)
    rw [List.flatMap_cons, List.append_assoc, List.length_cons, times,
      bind_of_ok (h a List.mem_cons_self _), bind_of_ok hrest]
    rfl

theorem list_encode {write : α → Bytes} {l : List α}
    (h : ∀ a ∈ l, ∀ rest, d (write a ++ rest) = .ok (a, rest)) (hl : l.length < capacity 64)
    (rest : Bytes) : list d (encode l.length ++ (l.flatMap write ++ rest)) = .ok (l, rest) := by
  have hn : number 64 (encode l.length ++ (l.flatMap write ++ rest)) =
      .ok (l.length, l.flatMap write ++ rest) := decode_encode hl _
  rw [list, bind_of_ok hn, times_flatMap h]

theorem optional_encodeOptional (id : Option Id) (rest : Bytes) :
    optional Decoder.id (encodeOptional id ++ rest) = .ok (id, rest) := by
  cases id with
  | none => rfl
  | some id =>
    have hbyte : byte (encodeOptional (some id) ++ rest) = .ok (1, encodeId id ++ rest) := rfl
    rw [optional, bind_of_ok hbyte]
    exact bind_of_ok (id_encodeId id rest)

theorem text_encodeText {text : String} (h : text.toByteArray.data.toList.length < capacity 64)
    (rest : Bytes) : Decoder.text (encodeText text ++ rest) = .ok (text, rest) := by
  set raw := text.toByteArray.data.toList with hraw
  have hn : number 64 (encode raw.length ++ (raw ++ rest)) = .ok (raw.length, raw ++ rest) :=
    decode_encode h _
  have hbytes : bytes raw.length (raw ++ rest) = .ok (raw, rest) := by
    unfold bytes
    rw [if_pos (by simp), List.splitAt_eq, List.take_left, List.drop_left]
  have hutf : String.fromUTF8? ⟨raw.toArray⟩ = some text := by
    rw [hraw, Array.toArray_toList]
    exact dif_pos text.isValidUTF8
  rw [encodeText, List.append_assoc, Decoder.text, bind_of_ok hn, bind_of_ok hbytes, hutf]
  rfl

theorem token_encodeToken {token : Token} (h : token.entries.size < capacity 64)
    (hf : ∀ b ∈ token.entries.toList, b.2 < UInt64.size) (rest : Bytes) :
    Decoder.token (encodeToken token ++ rest) = .ok (token, rest) := by
  have hentry : ∀ b ∈ token.entries.toList, ∀ rest,
      tokenEntry (encodeId b.1 ++ encode b.2 ++ rest) = .ok (b, rest) := by
    intro b hb rest
    have hn : number 64 (encode b.2 ++ rest) = .ok (b.2, rest) := decode_encode (hf b hb) rest
    rw [List.append_assoc, tokenEntry, bind_of_ok (id_encodeId b.1 _), bind_of_ok hn]
    rfl
  have hentries := list_encode hentry h rest
  rw [encodeToken, List.append_assoc, Decoder.token]
  refine (bind_of_ok hentries).trans ?_
  show Except.ok (Token.ofList token.entries.toList, rest) = .ok (token, rest)
  rw [Token.ofList, SortedMap.ofList_toList]

/-- What was written of a content is read back, if its counters fit into 64 bits. -/
theorem content_encodeContent {msg : Message} (hf : msg.Fits)
    (hs : (encodeContent msg.content).length < capacity 64) (rest : Bytes) :
    content (encodeContent msg.content ++ rest) = .ok (msg.content, rest) := by
  have place : ∀ n : Nat, n < 6 → ∀ tail, number 32 (encode n ++ tail) = .ok (n, tail) :=
    fun n hn tail =>
      have hlt : n < capacity 32 := Nat.lt_trans hn (by decide)
      decode_encode hlt tail
  have word : ∀ n : Nat, n < capacity 64 → ∀ tail, number 64 (encode n ++ tail) = .ok (n, tail) :=
    fun n hn tail => decode_encode hn tail
  unfold Message.Fits at hf
  cases hc : msg.content with
  | identity =>
    rw [encodeContent, content, bind_of_ok (place 0 (by decide) _)]
    rfl
  | electionToken x =>
    rw [encodeContent, List.append_assoc, content, bind_of_ok (place 1 (by decide) _)]
    exact bind_of_ok (id_encodeId x rest)
  | electionLeader x =>
    rw [encodeContent, List.append_assoc, content, bind_of_ok (place 2 (by decide) _)]
    exact bind_of_ok (id_encodeId x rest)
  | mutexRequest n =>
    rw [hc] at hf
    rw [encodeContent, List.append_assoc, content, bind_of_ok (place 3 (by decide) _)]
    exact bind_of_ok (word n hf rest)
  | mutexToken n token =>
    rw [hc] at hf hs
    have hentries : token.entries.size < capacity 64 := by
      have hle := length_le_flatMap (fun b => encodeId b.1 ++ encode b.2) token.entries.toList
        fun b _ => by have := length_encode_pos b.2; rw [List.length_append]; omega
      simp only [encodeContent, encodeToken, List.length_append] at hs
      unfold SortedMap.size
      omega
    rw [encodeContent, List.append_assoc, List.append_assoc, content,
      bind_of_ok (place 4 (by decide) _)]
    exact (bind_of_ok (word n hf.1 _)).trans (bind_of_ok (token_encodeToken hentries hf.2 rest))
  | chat n text =>
    rw [hc] at hf hs
    have hraw : text.toByteArray.data.toList.length < capacity 64 := by
      simp only [encodeContent, encodeText, List.length_append] at hs
      omega
    rw [encodeContent, List.append_assoc, List.append_assoc, content,
      bind_of_ok (place 5 (by decide) _)]
    exact (bind_of_ok (word n hf _)).trans (bind_of_ok (text_encodeText hraw rest))

/-- Whatever is read of a content, it is of the kind that was written. -/
theorem kind_of_content {c c' : Content} {rest : Bytes}
    (h : content (encodeContent c) = .ok (c', rest)) : c'.kind = c.kind := by
  have place : ∀ n : Nat, n < 6 → ∀ tail, number 32 (encode n ++ tail) = .ok (n, tail) :=
    fun n hn tail =>
      have hlt : n < capacity 32 := Nat.lt_trans hn (by decide)
      decode_encode hlt tail
  cases c with
  | identity =>
    rw [encodeContent, ← List.append_nil (encode 0), content,
      bind_of_ok (place 0 (by decide) [])] at h
    cases h
    rfl
  | electionToken x =>
    rw [encodeContent, content, bind_of_ok (place 1 (by decide) _)] at h
    obtain ⟨_, _, -, h⟩ := exists_of_bind h
    cases h
    rfl
  | electionLeader x =>
    rw [encodeContent, content, bind_of_ok (place 2 (by decide) _)] at h
    obtain ⟨_, _, -, h⟩ := exists_of_bind h
    cases h
    rfl
  | mutexRequest n =>
    rw [encodeContent, content, bind_of_ok (place 3 (by decide) _)] at h
    obtain ⟨_, _, -, h⟩ := exists_of_bind h
    cases h
    rfl
  | mutexToken n token =>
    rw [encodeContent, List.append_assoc, content, bind_of_ok (place 4 (by decide) _)] at h
    obtain ⟨_, _, -, h⟩ := exists_of_bind h
    obtain ⟨_, _, -, h⟩ := exists_of_bind h
    cases h
    rfl
  | chat n text =>
    rw [encodeContent, List.append_assoc, content, bind_of_ok (place 5 (by decide) _)] at h
    obtain ⟨_, _, -, h⟩ := exists_of_bind h
    obtain ⟨_, _, -, h⟩ := exists_of_bind h
    cases h
    rfl

/-- The number of a line is read as it was written, or nothing is read. -/
theorem exists_of_content_chat {n : Nat} {text : String} {c : Content} {rest left : Bytes}
    (h : content (encodeContent (.chat n text) ++ rest) = .ok (c, left)) :
    ∃ text', c = .chat n text' := by
  have hplace : number 32 (encode 5 ++ (encode n ++ (encodeText text ++ rest))) =
      .ok (5, encode n ++ (encodeText text ++ rest)) :=
    decode_encode (by decide : 5 < capacity 32) _
  rw [encodeContent, List.append_assoc, List.append_assoc, content, bind_of_ok hplace] at h
  obtain ⟨k, _, hk, h⟩ := exists_of_bind h
  obtain ⟨text', _, -, h⟩ := exists_of_bind h
  cases h
  exact ⟨text', by rw [eq_of_decode_encode hk]⟩

/-- The header of a message is read back, and its content is read from what is left. -/
theorem message_encodeMessage {m : Message} (h : m.path.length < capacity 64) (rest : Bytes) :
    Decoder.message (encodeMessage m ++ rest) =
      (do return ⟨m.sender, m.path, m.recipient, ← content⟩ : Decoder Message)
        (encodeContent m.content ++ rest) := by
  have hassoc : encodeMessage m ++ rest = encodeId m.sender ++ (encode m.path.length ++
      (m.path.flatMap encodeId ++
        (encodeOptional m.recipient ++ (encodeContent m.content ++ rest)))) := by
    simp [encodeMessage]
  have hpath := list_encode (fun a _ => id_encodeId a) h
    (encodeOptional m.recipient ++ (encodeContent m.content ++ rest))
  rw [hassoc, Decoder.message, bind_of_ok (id_encodeId _ _), bind_of_ok hpath,
    bind_of_ok (optional_encodeOptional _ _)]

/-- A message whose counters fit is read back, whatever follows it. -/
theorem message_of_fits {m : Message} (hf : m.Fits)
    (hs : (encodeMessage m).length < capacity 64) (rest : Bytes) :
    Decoder.message (encodeMessage m ++ rest) = .ok (m, rest) := by
  have hids := length_le_flatMap encodeId m.path fun id _ => length_encode_pos id.toNat
  simp only [encodeMessage, List.length_append] at hs
  rw [message_encodeMessage (by omega) rest,
    bind_of_ok (content_encodeContent hf (by omega) rest)]
  rfl

end Decoder

theorem length_encodeId_pos (id : Id) : 0 < (encodeId id).length := length_encode_pos id.toNat

/-- Seven bits go into a byte. -/
theorem length_encode_le {k n : Nat} (h : n < 128 ^ (k + 1)) : (encode n).length ≤ k + 1 := by
  induction k generalizing n with
  | zero =>
    rw [encode_of_lt (by omega)]
    exact Nat.le_refl 1
  | succ k ih =>
    by_cases hn : n < 128
    · rw [encode_of_lt hn]
      exact Nat.le_add_left 1 (k + 1)
    · have hrest : n / 128 < 128 ^ (k + 1) := by
        rw [Nat.pow_succ] at h
        exact Nat.div_lt_of_lt_mul (Nat.mul_comm _ _ ▸ h)
      rw [encode_of_le (Nat.not_lt.1 hn), List.length_cons]
      exact Nat.succ_le_succ (ih hrest)

theorem length_encodeId_le (id : Id) : (encodeId id).length ≤ 5 := by
  have := id.toNat_lt
  exact length_encode_le (k := 4) (by omega)

/-- Identities from 2²⁸ on take five bytes. -/
theorem length_encodeId {id : Id} (h : 268435456 ≤ id.toNat) : (encodeId id).length = 5 := by
  have hlt := id.toNat_lt
  unfold encodeId
  rw [encode_of_le (by omega), encode_of_le (by omega), encode_of_le (by omega),
    encode_of_le (by omega), encode_of_lt (by omega)]
  rfl

/-- A list of numbers below `n`, none of which stands in it more than twice. -/
theorem length_le_of_count {l : List Id} {n : Nat} (hn : ∀ id ∈ l, id.toNat < n)
    (hc : ∀ id, l.count id ≤ 2) : l.length ≤ 2 * n := by
  have hdedup : l.dedup.length ≤ n := by
    have hnodup : (l.dedup.map UInt32.toNat).Nodup :=
      l.nodup_dedup.map fun _ _ h => UInt32.toNat_inj.1 h
    have hsub : l.dedup.map UInt32.toNat ⊆ List.range n := by
      intro k hk
      obtain ⟨id, hid, rfl⟩ := List.mem_map.1 hk
      exact List.mem_range.2 (hn id (List.mem_dedup.1 hid))
    have hle := (hnodup.subperm hsub).length_le
    rwa [List.length_map, List.length_range] at hle
  have hsum : (l.dedup.map fun id => l.count id).sum ≤ l.dedup.length * 2 := by
    have hle := List.sum_le_card_nsmul (l.dedup.map fun id => l.count id) 2 (by
      intro k hk
      obtain ⟨id, -, rfl⟩ := List.mem_map.1 hk
      exact hc id)
    rwa [List.length_map, smul_eq_mul] at hle
  have htotal : (l.dedup.map fun id => l.count id).sum = l.length := l.sum_map_count_dedup_eq_length
  omega

/-- Few identities are written in few bytes, so that the bytes bound the length. -/
theorem length_lt_of_count {l : List Id} (hb : (l.flatMap encodeId).length ≤ maxWord)
    (hc : ∀ id, l.count id ≤ 2) : l.length < 2147483647 := by
  have hsmall : (l.filter fun id => id.toNat < 268435456).length ≤ 2 * 268435456 := by
    refine length_le_of_count (fun id hid => ?_) fun id => ?_
    · simpa using (List.mem_filter.1 hid).2
    · exact Nat.le_trans (List.filter_sublist.count_le id) (hc id)
  have hlarge : 5 * (l.filter fun id => ¬ id.toNat < 268435456).length ≤
      (l.flatMap encodeId).length := by
    clear hb hc hsmall
    induction l with
    | nil => exact Nat.le_refl 0
    | cons id l ih =>
      by_cases h : id.toNat < 268435456
      · simp only [List.flatMap_cons, List.length_append, List.filter_cons, h, not_true_eq_false,
          decide_false, Bool.false_eq_true, if_false]
        omega
      · simp only [List.flatMap_cons, List.length_append, List.filter_cons, h, not_false_eq_true,
          decide_true, if_true, List.length_cons, length_encodeId (Nat.not_lt.1 h)]
        omega
  have hsplit := l.length_eq_length_filter_add fun id => id.toNat < 268435456
  simp only [← decide_not] at hsplit
  unfold maxWord at hb
  omega

end Wire

namespace Frame

/-- A server has written the frame, with this message in it. -/
def Carries (f : Frame) (msg : Message) : Prop :=
  ∃ sender limit, ofMessage f.type sender msg limit = .ok f

theorem carries_of_ofMessage {type : MessageType} {sender : Id} {msg : Message} {limit : UInt32}
    {f : Frame} (h : ofMessage type sender msg limit = .ok f) : f.Carries msg := by
  obtain ⟨-, rfl⟩ := ofMessage_eq_ok_iff.1 h
  exact ⟨sender, limit, h⟩

theorem type_of_ofMessage {type : MessageType} {sender : Id} {msg : Message} {limit : UInt32}
    {f : Frame} (h : ofMessage type sender msg limit = .ok f) : f.type = type := by
  obtain ⟨-, rfl⟩ := ofMessage_eq_ok_iff.1 h
  rfl

namespace Carries

variable {f : Frame} {msg : Message}

theorem payload (h : f.Carries msg) : f.payload = Wire.encodeMessage msg := by
  obtain ⟨sender, limit, h⟩ := h
  rw [(ofMessage_eq_ok_iff.1 h).2]

theorem length_payload_le (h : f.Carries msg) : (Wire.encodeMessage msg).length ≤ maxWord := by
  obtain ⟨sender, limit, h⟩ := h
  have hle := (ofMessage_eq_ok_iff.1 h).1
  have hlimit := limit.toNat_lt
  unfold maxWord
  omega

theorem length_flatMap_le (h : f.Carries msg) :
    (msg.path.flatMap Wire.encodeId).length ≤ maxWord := by
  have hle := h.length_payload_le
  simp only [Wire.encodeMessage, List.length_append] at hle
  omega

theorem length_path_lt_capacity (h : f.Carries msg) :
    msg.path.length < Wire.Varint.capacity 64 := by
  have hbytes := Wire.length_le_flatMap Wire.encodeId msg.path fun id _ => Wire.length_encodeId_pos id
  have hword := h.length_flatMap_le
  have : maxWord < Wire.Varint.capacity 64 := by decide
  omega

/-- What a server reads is what was written, except that its content is read anew. -/
theorem exists_of_read {read : Message} (h : f.Carries msg) (hr : f.message = .ok read) :
    ∃ content left, Wire.Decoder.content (Wire.encodeContent msg.content) = .ok (content, left) ∧
      read = ⟨msg.sender, msg.path, msg.recipient, content⟩ := by
  unfold message decode Wire.Decoder.value at hr
  rw [h.payload, ← List.append_nil (Wire.encodeMessage msg),
    Wire.Decoder.message_encodeMessage h.length_path_lt_capacity, List.append_nil] at hr
  split at hr
  next hread =>
    obtain ⟨_, _, hc, hpure⟩ := Wire.Decoder.exists_of_bind hread
    cases hpure
    cases hr
    exact ⟨_, _, hc, rfl⟩
  next => simp [Except.mapError] at hr

/-- What a server reads has the sender, the path and the recipient that were written, and a content
of the same kind. -/
theorem header (h : f.Carries msg) {read : Message} (hr : f.message = .ok read) :
    read.sender = msg.sender ∧ read.path = msg.path ∧ read.recipient = msg.recipient ∧
      read.content.kind = msg.content.kind := by
  obtain ⟨content, left, hc, rfl⟩ := h.exists_of_read hr
  exact ⟨rfl, rfl, rfl, Wire.Decoder.kind_of_content hc⟩

/-- What a server reads has the number that was written. -/
theorem sequence? (h : f.Carries msg) {read : Message} (hr : f.message = .ok read) :
    read.sequence? = msg.sequence? := by
  obtain ⟨content, left, hread, rfl⟩ := h.exists_of_read hr
  unfold Message.sequence?
  dsimp only
  cases hc : msg.content with
  | chat n text =>
    rw [hc, ← List.append_nil (Wire.encodeContent _)] at hread
    obtain ⟨text', rfl⟩ := Wire.Decoder.exists_of_content_chat hread
    rfl
  | _ =>
    have hkind := Wire.Decoder.kind_of_content hread
    rw [hc] at hkind
    cases content <;> first | rfl | cases hkind

/-- A path on which nobody stands more than twice has fewer servers than a route counts hops. -/
theorem length_path_lt (h : f.Carries msg) (hc : ∀ id, msg.path.count id ≤ 2) :
    msg.path.length < 2147483647 :=
  Wire.length_lt_of_count h.length_flatMap_le hc

/-- A message whose counters fit is read as it was written. -/
theorem message_of_fits (h : f.Carries msg) (hf : msg.Fits) : f.message = .ok msg := by
  have hs : (Wire.encodeMessage msg).length < Wire.Varint.capacity 64 := by
    have hle := h.length_payload_le
    have : maxWord < Wire.Varint.capacity 64 := by decide
    omega
  have hread := Wire.Decoder.message_of_fits hf hs []
  rw [List.append_nil] at hread
  unfold message decode Wire.Decoder.value
  rw [h.payload, hread]
  rfl

end Carries

end Frame

end RelayMesh
