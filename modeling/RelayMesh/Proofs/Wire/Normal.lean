import RelayMesh.Proofs.Wire.RoundTrip
import RelayMesh.Server.Basic

namespace RelayMesh

namespace Wire

open Varint

theorem length_encode_mono {a b : Nat} (h : a ≤ b) : (encode a).length ≤ (encode b).length := by
  induction b using Nat.strongRecOn generalizing a with
  | _ b ih =>
    by_cases ha : a < 128
    · rw [encode_of_lt ha]
      exact length_encode_pos b
    · rw [encode_of_le (Nat.not_lt.1 ha), encode_of_le ((Nat.not_lt.1 ha).trans h),
        List.length_cons, List.length_cons]
      exact Nat.succ_le_succ (ih (b / 128) (by omega) (Nat.div_le_div_right h))

/-- Different values take no more bytes than a list in which all of them stand. -/
theorem length_flatMap_le {α : Type} (write : α → Bytes) {l l' : List α} (hn : l.Nodup)
    (hsub : l ⊆ l') : (l.flatMap write).length ≤ (l'.flatMap write).length := by
  obtain ⟨chosen, hperm, hchosen⟩ := hn.subperm hsub
  rw [← (hperm.flatMap_right write).length_eq]
  exact (hchosen.flatMap write).length_le

/-- How many bytes a path takes beyond those of an empty one. -/
def pathCost (path : List Id) : Nat :=
  (encode path.length).length - 1 + (path.flatMap encodeId).length

theorem length_encodeMessage (m : Message) :
    (encodeMessage m).length = (encodeMessage { m with path := [] }).length + pathCost m.path := by
  have hcount := length_encode_pos m.path.length
  have hnone : (encode 0).length = 1 := by rw [encode_of_lt (by decide)]; rfl
  simp only [encodeMessage, pathCost, List.length_append, List.length_nil, List.flatMap_nil, hnone]
  omega

/-- Different servers take no more room than all of them. -/
theorem pathCost_le {path servers : List Id} (hn : path.Nodup) (hsub : path ⊆ servers) :
    pathCost path ≤ pathCost servers := by
  have hcount := length_encode_mono (hn.subperm hsub).length_le
  have hids := length_flatMap_le encodeId hn hsub
  unfold pathCost
  omega

namespace Decoder

variable {α β : Type} {d : Decoder α} {next : α → Decoder β} {write : α → Bytes} {a : α} {b : β}
  {input left rest form form' : Bytes}

/-- The bytes `form` spell `a`, whatever follows them, and are not more than those of `input` before
`rest`. -/
structure Spelling (d : Decoder α) (input rest : Bytes) (a : α) (form : Bytes) : Prop where
  length_le : form.length + rest.length ≤ input.length
  read : ∀ tail, d (form ++ tail) = .ok (a, tail)

/-- Whatever is read, `write` spells it in no more bytes. -/
def NormalizedBy (d : Decoder α) (write : α → Bytes) : Prop :=
  ∀ ⦃input rest a⦄, d input = .ok (a, rest) → d.Spelling input rest a (write a)

/-- Two values that follow each other are spelled one after the other. -/
theorem Spelling.bind (h : d.Spelling input left a form)
    (hnext : (next a).Spelling left rest b form') :
    (d >>= next).Spelling input rest b (form ++ form') := by
  refine ⟨?_, fun tail => ?_⟩
  · have hle := h.length_le
    have hle' := hnext.length_le
    rw [List.length_append]
    omega
  · rw [List.append_assoc, bind_of_ok (h.read _), hnext.read]

theorem Spelling.map (f : α → β) (h : d.Spelling input rest a form) :
    (do return f (← d) : Decoder β).Spelling input rest (f a) form :=
  ⟨h.length_le, fun tail => bind_of_ok (h.read tail)⟩

theorem number_normalizedBy (bits : Nat) : (number bits).NormalizedBy encode := fun _ _ _ h =>
  ⟨length_encode_of_decode h, decode_encode (lt_of_decode h)⟩

theorem id_normalizedBy : Decoder.id.NormalizedBy encodeId := by
  intro input rest id h
  obtain ⟨n, left, hn, hpure⟩ := exists_of_bind h
  cases hpure
  have hlt : n < UInt32.size := lt_of_decode hn
  refine ⟨?_, id_encodeId _⟩
  rw [encodeId, UInt32.toNat_ofNat_of_lt' hlt]
  exact length_encode_of_decode hn

/-- A list of values that were read one after the other, and the spelling of each. -/
theorem times_spelled (hd : d.NormalizedBy write) {n : Nat} {l : List α}
    (h : times d n input = .ok (l, rest)) :
    l.length = n ∧ (l.flatMap write).length + rest.length ≤ input.length ∧
      ∀ a ∈ l, ∀ tail, d (write a ++ tail) = .ok (a, tail) := by
  induction n generalizing l input with
  | zero =>
    cases h
    exact ⟨rfl, Nat.le_of_eq (Nat.zero_add _), by simp⟩
  | succ n ih =>
    obtain ⟨first, left, hfirst, h⟩ := exists_of_bind h
    obtain ⟨others, left', hothers, hpure⟩ := exists_of_bind h
    cases hpure
    have hspelled := hd hfirst
    obtain ⟨hcount, hle, hread⟩ := ih hothers
    refine ⟨by rw [List.length_cons, hcount], ?_, List.forall_mem_cons.2 ⟨hspelled.read, hread⟩⟩
    have hle' := hspelled.length_le
    rw [List.flatMap_cons, List.length_append]
    omega

/-- Any of the values of a list that was read, each once, are a list in no more bytes. -/
theorem list_spelled (hd : d.NormalizedBy write) {l chosen : List α}
    (h : list d input = .ok (l, rest)) (hfew : chosen.length ≤ l.length)
    (hshort : (chosen.flatMap write).length ≤ (l.flatMap write).length) (hsub : chosen ⊆ l) :
    (list d).Spelling input rest chosen (encode chosen.length ++ chosen.flatMap write) := by
  obtain ⟨n, left, hn, h⟩ := exists_of_bind h
  obtain ⟨hcount, hle, hread⟩ := times_spelled hd h
  subst hcount
  have hlt : l.length < capacity 64 := lt_of_decode hn
  refine ⟨?_, fun tail => ?_⟩
  · have hnumber := length_encode_of_decode hn
    have hmono := length_encode_mono hfew
    rw [List.length_append]
    omega
  · rw [List.append_assoc]
    exact list_encode (fun a ha => hread a (hsub ha)) (Nat.lt_of_le_of_lt hfew hlt) tail

theorem list_normalizedBy (hd : d.NormalizedBy write) :
    (list d).NormalizedBy fun l => encode l.length ++ l.flatMap write := fun _ _ l h =>
  list_spelled hd h (Nat.le_refl _) (Nat.le_refl _) (List.Subset.refl l)

theorem optional_normalizedBy : (optional Decoder.id).NormalizedBy encodeOptional := by
  intro input rest recipient h
  refine ⟨?_, optional_encodeOptional recipient⟩
  obtain ⟨b, left, hb, h⟩ := exists_of_bind h
  have hinput : input = b :: left := by
    cases input with
    | nil => cases hb
    | cons => cases hb; rfl
  rw [hinput, List.length_cons]
  match hn : b.toNat, h with
  | 0, h =>
    cases h
    exact Nat.le_of_eq (Nat.add_comm _ _)
  | 1, h =>
    obtain ⟨id, left', hid, hpure⟩ := exists_of_bind h
    cases hpure
    have hle := (id_normalizedBy hid).length_le
    rw [encodeOptional, List.length_cons]
    omega
  | n + 2, h => cases h

theorem toByteArray_of_fromUTF8? {raw : ByteArray} {text : String}
    (h : String.fromUTF8? raw = some text) : text.toByteArray = raw := by
  unfold String.fromUTF8? at h
  split at h
  · cases h
    rfl
  · cases h

theorem text_normalizedBy : Decoder.text.NormalizedBy encodeText := by
  intro input rest text h
  obtain ⟨n, left, hn, h⟩ := exists_of_bind h
  obtain ⟨raw, left', hraw, h⟩ := exists_of_bind h
  have hnumber := length_encode_of_decode hn
  have hlt : n < capacity 64 := lt_of_decode hn
  unfold bytes at hraw
  split at hraw
  next hle =>
    rw [List.splitAt_eq] at hraw
    cases hraw
    cases hs : String.fromUTF8? ⟨(left.take n).toArray⟩ with
    | some s =>
      rw [hs] at h
      cases h
      have hlength : text.toByteArray.data.toList.length = n := by
        rw [toByteArray_of_fromUTF8? hs, List.toList_toArray, List.length_take, Nat.min_eq_left hle]
      refine ⟨?_, text_encodeText (by rwa [hlength])⟩
      simp only [encodeText, hlength, List.length_append, List.length_drop]
      omega
    | none =>
      rw [hs] at h
      cases h
  next => cases hraw

theorem tokenEntry_normalizedBy : tokenEntry.NormalizedBy fun b => encodeId b.1 ++ encode b.2 := by
  intro input rest b h
  obtain ⟨id, left, hid, h⟩ := exists_of_bind h
  obtain ⟨n, left', hn, hpure⟩ := exists_of_bind h
  cases hpure
  exact (id_normalizedBy hid).bind ((number_normalizedBy 64 hn).map (Prod.mk id))

/-- Of the entries for one server the last one is written again, in its place. -/
theorem token_normalizedBy : Decoder.token.NormalizedBy encodeToken := by
  intro input rest token h
  obtain ⟨entries, left, hentries, hpure⟩ := exists_of_bind h
  cases hpure
  have hsub := SortedMap.toList_ofList_subset entries
  have hnodup := SortedMap.nodup_toList (.ofList entries)
  have hspelled := (list_spelled tokenEntry_normalizedBy hentries (hnodup.subperm hsub).length_le
    (length_flatMap_le _ hnodup hsub) hsub).map Token.ofList
  rwa [Token.ofList, SortedMap.ofList_toList] at hspelled

theorem content_normalizedBy : content.NormalizedBy encodeContent := by
  intro input rest c h
  obtain ⟨place, left, hplace, h⟩ := exists_of_bind h
  have hspelled := number_normalizedBy 32 hplace
  match place, h with
  | 0, h =>
    cases h
    refine ⟨hspelled.length_le, fun tail => ?_⟩
    rw [encodeContent, content, bind_of_ok (hspelled.read tail)]
    rfl
  | 1, h =>
    obtain ⟨x, left', hx, hpure⟩ := exists_of_bind h
    cases hpure
    exact hspelled.bind ((id_normalizedBy hx).map Content.electionToken)
  | 2, h =>
    obtain ⟨x, left', hx, hpure⟩ := exists_of_bind h
    cases hpure
    exact hspelled.bind ((id_normalizedBy hx).map Content.electionLeader)
  | 3, h =>
    obtain ⟨n, left', hn, hpure⟩ := exists_of_bind h
    cases hpure
    exact hspelled.bind ((number_normalizedBy 64 hn).map Content.mutexRequest)
  | 4, h =>
    obtain ⟨n, left', hn, h⟩ := exists_of_bind h
    obtain ⟨token, left'', ht, hpure⟩ := exists_of_bind h
    cases hpure
    rw [encodeContent, List.append_assoc]
    exact hspelled.bind ((number_normalizedBy 64 hn).bind
      ((token_normalizedBy ht).map (Content.mutexToken n)))
  | 5, h =>
    obtain ⟨n, left', hn, h⟩ := exists_of_bind h
    obtain ⟨text, left'', ht, hpure⟩ := exists_of_bind h
    cases hpure
    rw [encodeContent, List.append_assoc]
    exact hspelled.bind ((number_normalizedBy 64 hn).bind
      ((text_normalizedBy ht).map (Content.chat n)))
  | n + 6, h => cases h

theorem message_normalizedBy : message.NormalizedBy encodeMessage := by
  intro input rest m h
  obtain ⟨sender, left, hsender, h⟩ := exists_of_bind h
  obtain ⟨path, left', hpath, h⟩ := exists_of_bind h
  obtain ⟨recipient, left'', hrecipient, h⟩ := exists_of_bind h
  obtain ⟨c, left''', hc, hpure⟩ := exists_of_bind h
  cases hpure
  have hspelled : message.Spelling input rest ⟨sender, path, recipient, c⟩ (encodeId sender ++
      ((encode path.length ++ path.flatMap encodeId) ++
        (encodeOptional recipient ++ encodeContent c))) :=
    (id_normalizedBy hsender).bind ((list_normalizedBy id_normalizedBy hpath).bind
      ((optional_normalizedBy hrecipient).bind
        ((content_normalizedBy hc).map (Message.mk sender path recipient))))
  simpa [encodeMessage] using hspelled

/-- What was read as a content can be written into any message. -/
theorem content_of_message {m : Message} (h : message input = .ok (m, rest)) (tail : Bytes) :
    content (encodeContent m.content ++ tail) = .ok (m.content, tail) := by
  obtain ⟨sender, left, -, h⟩ := exists_of_bind h
  obtain ⟨path, left', -, h⟩ := exists_of_bind h
  obtain ⟨recipient, left'', -, h⟩ := exists_of_bind h
  obtain ⟨c, left''', hc, hpure⟩ := exists_of_bind h
  cases hpure
  exact (content_normalizedBy hc).read tail

end Decoder

end Wire

theorem Message.appendToPath_eq (m : Message) (id : Id) :
    m.appendToPath id = { m with path := (m.appendToPath id).path } := by
  unfold appendToPath
  split <;> rfl

namespace Frame

variable {f g : Frame} {m : Message}

theorem exists_of_message (h : f.message = .ok m) :
    ∃ rest, Wire.Decoder.message f.payload = .ok (m, rest) := by
  unfold message decode Wire.Decoder.value at h
  split at h
  next a rest hread =>
    cases h
    exact ⟨rest, hread⟩
  next => cases h

theorem message_of_read {rest : Bytes} (h : Wire.Decoder.message f.payload = .ok (m, rest)) :
    f.message = .ok m := by
  unfold message decode Wire.Decoder.value
  rw [h]
  rfl

/-- A frame that a server fills with a message it has read, on a path of its own, is read as that. -/
theorem message_of_carries {path : List Id} (h : f.message = .ok m) (hg : g.Carries { m with path }) :
    g.message = .ok { m with path } := by
  obtain ⟨rest, hread⟩ := exists_of_message h
  have hwhole : Wire.Decoder.message g.payload = .ok ({ m with path }, []) := by
    rw [hg.payload, ← List.append_nil (Wire.encodeMessage _),
      Wire.Decoder.message_encodeMessage hg.length_path_lt_capacity,
      Wire.Decoder.bind_of_ok (Wire.Decoder.content_of_message hread [])]
    rfl
  exact message_of_read hwhole

/-- Whatever bytes a message was read from, it takes no more of them when it is written, and it is then
read as the same message, whatever follows. So a server can write down all that came to it under its own
limit; with the server on its path the message is still the same, and longer than what came by no more
than the path has grown. -/
theorem rewritten_no_longer (h : f.message = .ok m) :
    (Wire.encodeMessage m).length ≤ f.payload.length ∧
    (∀ extra, ({ f with payload := Wire.encodeMessage m ++ extra } : Frame).message = .ok m) ∧
    ∀ (s : Server) (type : MessageType),
      (f.payload.length ≤ s.config.maxMessageSize.toNat → ∃ g, s.frame type m = .ok g ∧
        g.message = .ok m ∧ g.payload.length ≤ f.payload.length) ∧
      ∀ g, s.frame type (m.appendToPath s.identity) = .ok g →
        g.message = .ok (m.appendToPath s.identity) ∧
        g.payload.length + Wire.pathCost m.path ≤
          f.payload.length + Wire.pathCost (m.appendToPath s.identity).path := by
  obtain ⟨rest, hread⟩ := exists_of_message h
  have hspelled := Wire.Decoder.message_normalizedBy hread
  have hle : (Wire.encodeMessage m).length ≤ f.payload.length :=
    Nat.le_of_add_right_le hspelled.length_le
  refine ⟨hle, fun extra => message_of_read (hspelled.read extra), fun s type => ⟨fun hfits => ?_, ?_⟩⟩
  · have hwritten := ofMessage_of_le type s.identity (hle.trans hfits)
    exact ⟨_, hwritten, message_of_carries h (carries_of_ofMessage hwritten), hle⟩
  · intro g hg
    have hcarries := carries_of_ofMessage hg
    rw [Message.appendToPath_eq] at hcarries ⊢
    refine ⟨message_of_carries h hcarries, ?_⟩
    have hbefore := Wire.length_encodeMessage m
    have hafter := Wire.length_encodeMessage { m with path := (m.appendToPath s.identity).path }
    dsimp only at hafter ⊢
    rw [hcarries.payload]
    omega

/-- The token, on its way from 5 through 2, with numbers that take more bytes than they need, entries
out of order, two of them for 9, and a byte that belongs to nothing. -/
def wordy : Frame where
  type := MessageType.mutexToken
  sender := 2
  payload := [0x85, 0, 0x81, 0, 2, 0, 0x84, 0x80, 0, 7, 3, 9, 1, 3, 2, 0x89, 0, 4, 0xff]

def plain : Message := ⟨5, [2], none, .mutexToken 7 (.ofList [(3, 2), (9, 4)])⟩

theorem rewritten_no_longer_wordy :
    wordy.message = .ok plain ∧ wordy.payload.length = 19 ∧
    Wire.encodeMessage plain = [5, 1, 2, 0, 4, 7, 2, 3, 2, 9, 4] ∧
    ({ wordy with payload := [5, 1, 2, 0, 4, 7, 2, 3, 2, 9, 4, 0xff] } : Frame).message = .ok plain ∧
    ∃ g, (Server.new 3 { maxMessageSize := 19 }).frame wordy.type (plain.appendToPath 3) = .ok g ∧
      g.message = .ok (plain.appendToPath 3) ∧
        g.payload.length + Wire.pathCost [2] ≤ 19 + Wire.pathCost [2, 3] := by
  have hread : wordy.message = .ok plain := by decide +kernel
  have hbytes : Wire.encodeMessage plain = [5, 1, 2, 0, 4, 7, 2, 3, 2, 9, 4] := by decide +kernel
  obtain ⟨-, hagain, hserver⟩ := rewritten_no_longer hread
  have hagain := hagain [0xff]
  rw [hbytes] at hagain
  have hroom : (Wire.encodeMessage (plain.appendToPath 3)).length ≤ (19 : UInt32).toNat := by
    decide +kernel
  have hwritten := ofMessage_of_le wordy.type 3 hroom
  have hrelayed := (hserver (Server.new 3 { maxMessageSize := 19 }) wordy.type).2 _ hwritten
  exact ⟨hread, rfl, hbytes, hagain, _, hwritten, hrelayed⟩

end Frame

end RelayMesh
