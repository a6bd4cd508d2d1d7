import RelayMesh.Frame.Reader
import Mathlib.Data.List.Basic

namespace RelayMesh

theorem wordBytes_wordOf (a b c d : UInt8) : wordBytes (wordOf a b c d) = [a, b, c, d] := by
  have ha := a.toNat_lt
  have hb := b.toNat_lt
  have hc := c.toNat_lt
  have hd := d.toNat_lt
  simp only [wordBytes, wordOf, UInt32.toNat_ofNat', List.cons.injEq, and_true]
  refine ⟨?_, ?_, ?_, ?_⟩ <;> apply UInt8.toNat_inj.1 <;> rw [UInt8.toNat_ofNat'] <;> omega

namespace Frame

variable {limit : UInt32} {type : MessageType} {sender : Id} {size : UInt32}

def header (type : MessageType) (sender : Id) (size : UInt32) : Bytes :=
  wordBytes type ++ wordBytes sender ++ wordBytes size

/-- A size within the limit is written as it is. -/
theorem toNat_ofNat_of_le {n : Nat} (h : n ≤ limit.toNat) : (UInt32.ofNat n).toNat = n :=
  UInt32.toNat_ofNat_of_lt' (Nat.lt_of_le_of_lt h limit.toNat_lt)

theorem not_lt_ofNat {n : Nat} (h : n ≤ limit.toNat) : ¬ limit < UInt32.ofNat n := by
  rw [UInt32.lt_iff_toNat_lt, toNat_ofNat_of_le h]
  exact Nat.not_lt.2 h

theorem first_header (rest : Bytes) :
    first limit (header type sender size ++ rest) =
      if limit < size then .tooLarge
      else if size.toNat ≤ rest.length then
        .complete ⟨type, sender, rest.take size.toNat⟩ (rest.drop size.toNat)
      else .incomplete := by
  simp only [header, wordBytes, List.cons_append, List.nil_append, first, wordOf_wordBytes]

theorem first_above (h : limit < size) (rest : Bytes) :
    first limit (header type sender size ++ rest) = .tooLarge :=
  (first_header rest).trans (if_pos h)

theorem first_short {stream : Bytes} (h : stream.length < headerSize) :
    first limit stream = .incomplete := by
  unfold first
  split
  next =>
    simp only [List.length_cons, headerSize] at h
    omega
  next => rfl

theorem bytes_append (f : Frame) (rest : Bytes) : f.bytes ++ rest =
    header f.type f.sender (UInt32.ofNat f.payload.length) ++ (f.payload ++ rest) :=
  List.append_assoc ..

/-- A frame within the limit is split off whatever follows it. -/
theorem first_bytes {f : Frame} (h : f.payload.length ≤ limit.toNat) (rest : Bytes) :
    first limit (f.bytes ++ rest) = .complete f rest := by
  have hall : f.payload.length ≤ (f.payload ++ rest).length := by simp
  rw [bytes_append, first_header, if_neg (not_lt_ofNat h), toNat_ofNat_of_le h, if_pos hall,
    List.take_left, List.drop_left]

theorem parse_complete {stream rest : Bytes} {f : Frame}
    (h : first limit stream = .complete f rest) :
    parse limit stream = (f :: (parse limit rest).1, (parse limit rest).2) := by
  rw [parse]
  split <;> simp_all

theorem parse_incomplete {stream : Bytes} (h : first limit stream = .incomplete) :
    parse limit stream = ([], .incomplete stream) := by
  rw [parse]
  split <;> simp_all

theorem parse_tooLarge {stream : Bytes} (h : first limit stream = .tooLarge) :
    parse limit stream = ([], .tooLarge) := by
  rw [parse]
  split <;> simp_all

theorem parse_flatMap_bytes {frames : List Frame}
    (h : ∀ f ∈ frames, f.payload.length ≤ limit.toNat) (rest : Bytes) :
    parse limit (frames.flatMap bytes ++ rest) =
      (frames ++ (parse limit rest).1, (parse limit rest).2) := by
  induction frames with
  | nil => rfl
  | cons f frames ih =>
    have hrest := ih fun g hg => h g (List.mem_cons_of_mem _ hg)
    rw [List.flatMap_cons, List.append_assoc, parse_complete (first_bytes (h f List.mem_cons_self) _),
      hrest, List.cons_append]

end Frame

namespace SourceEvent

def bytes : SourceEvent → Bytes
  | data bytes => bytes
  | wouldBlock | interrupted | endOfStream | reset => []

/-- The source has ended or failed. A chunk without bytes is the end as well. -/
def Ends : SourceEvent → Prop
  | data bytes => bytes = []
  | wouldBlock | interrupted => False
  | endOfStream | reset => True

theorem Ends.bytes_eq {e : SourceEvent} (h : e.Ends) : e.bytes = [] := by
  cases e <;> simp_all [Ends, bytes]

end SourceEvent

namespace Source

open SourceEvent (bytes)

/-- From one source to the other the events in `taken` have come up and the bytes in `got` have been
read. -/
structure Passes (src : Source) (taken : List SourceEvent) (got : Bytes) (left : Source) :
    Prop where
  events : src.events = taken ++ left.events
  bytes : src.chunk ++ taken.flatMap bytes = got ++ left.chunk

/-- How many events and bytes are still to come. -/
def weight (src : Source) : Nat :=
  src.events.length + (src.events.flatMap bytes).length + src.chunk.length

variable {src mid left : Source} {taken more : List SourceEvent} {got : Bytes}

theorem Passes.refl (src : Source) : src.Passes [] [] src :=
  ⟨rfl, List.append_nil _⟩

theorem Passes.trans {got' : Bytes} (h : src.Passes taken got mid)
    (h' : mid.Passes more got' left) : src.Passes (taken ++ more) (got ++ got') left where
  events := by rw [h.events, h'.events, List.append_assoc]
  bytes := by
    rw [List.flatMap_append, ← List.append_assoc, h.bytes, List.append_assoc, h'.bytes,
      List.append_assoc]

theorem Passes.weight_eq (h : src.Passes taken got left) :
    src.weight = taken.length + got.length + left.weight := by
  have hbytes := congrArg List.length h.bytes
  simp only [weight, h.events, List.flatMap_append, List.length_append] at hbytes ⊢
  omega

theorem upcoming_go_append (h : ∀ e ∈ taken, ¬ e.Ends) :
    upcoming.go (taken ++ more) = taken.flatMap bytes ++ upcoming.go more := by
  induction taken with
  | nil => rfl
  | cons e taken ih =>
    have hrest := ih fun e he => h e (List.mem_cons_of_mem _ he)
    have hfirst := h e List.mem_cons_self
    cases e <;>
      simp_all [SourceEvent.Ends, upcoming.go, bytes, List.append_assoc]

/-- What is read comes off the front of what is to come, as long as the source goes on. -/
theorem Passes.upcoming_eq (h : src.Passes taken got left) (hgoes : ∀ e ∈ taken, ¬ e.Ends) :
    src.upcoming = got ++ left.upcoming := by
  rw [upcoming, h.events, upcoming_go_append hgoes, ← List.append_assoc, h.bytes,
    List.append_assoc, upcoming]

/-- A source that has ended has given all that was to come. -/
theorem Passes.upcoming_ends {front : List SourceEvent} {e : SourceEvent}
    (h : src.Passes (front ++ [e]) got left) (hgoes : ∀ e ∈ front, ¬ e.Ends) (he : e.Ends)
    (hchunk : left.chunk = []) : src.upcoming = got := by
  have hend : upcoming.go (e :: left.events) = [] := by
    cases e <;> simp_all [SourceEvent.Ends, upcoming.go]
  have hbytes := h.bytes
  rw [List.flatMap_append, List.flatMap_singleton, he.bytes_eq, List.append_nil, hchunk,
    List.append_nil] at hbytes
  rw [upcoming, h.events, List.append_assoc, List.singleton_append, upcoming_go_append hgoes, hend,
    List.append_nil, hbytes]

theorem upcoming_of_weight (h : src.weight = 0) : src.upcoming = [] := by
  obtain ⟨chunk, events⟩ := src
  simp only [weight, Nat.add_eq_zero_iff, List.length_eq_zero_iff] at h
  obtain ⟨⟨rfl, -⟩, rfl⟩ := h
  rfl

/-- What one read for at most `n` bytes does. -/
inductive Gives (n : Nat) (src : Source) : ReadOutcome → Source → Prop
  | data {taken : List SourceEvent} {got : Bytes} {left : Source}
      (passes : src.Passes taken got left) (goes : ∀ e ∈ taken, ¬ e.Ends) (pos : got ≠ [])
      (le : got.length ≤ n) : Gives n src (.data got) left
  | pending {taken : List SourceEvent} {left : Source} (passes : src.Passes taken [] left)
      (goes : ∀ e ∈ taken, ¬ e.Ends) (moves : taken ≠ [] ∨ src.weight = 0) :
      Gives n src .pending left
  | closed {e : SourceEvent} {left : Source} (passes : src.Passes [e] [] left) (ends : e.Ends)
      (empty : left.chunk = []) : Gives n src .closed left

theorem gives_read {n : Nat} (hn : 0 < n) (src : Source) :
    Gives n src (src.read n).1 (src.read n).2 := by
  have htake {chunk : Bytes} (h : chunk ≠ []) : chunk.take n ≠ [] := by
    simp only [ne_eq, List.take_eq_nil_iff, h, or_false]
    omega
  have hpause {e : SourceEvent} (events : List SourceEvent) (h : e.bytes = []) :
      Passes ⟨[], e :: events⟩ [e] [] ⟨[], events⟩ := ⟨rfl, by simp [h]⟩
  obtain ⟨chunk, events⟩ := src
  by_cases hchunk : chunk = []
  · subst hchunk
    match events with
    | [] => exact .pending (.refl _) (by simp) (.inr rfl)
    | .wouldBlock :: events | .interrupted :: events =>
      exact .pending (hpause events rfl) (by simp [SourceEvent.Ends]) (.inl (by simp))
    | .endOfStream :: events | .reset :: events => exact .closed (hpause events rfl) trivial rfl
    | .data [] :: events => exact .closed (hpause events rfl) rfl rfl
    | .data (b :: chunk) :: events =>
      have hpasses : Passes ⟨[], .data (b :: chunk) :: events⟩ [.data (b :: chunk)]
          ((b :: chunk).take n) ⟨(b :: chunk).drop n, events⟩ := ⟨rfl, by simp [bytes]⟩
      exact .data hpasses (by simp [SourceEvent.Ends]) (htake (List.cons_ne_nil b chunk))
        (List.length_take_le ..)
  · have hread : read n ⟨chunk, events⟩ = (.data (chunk.take n), ⟨chunk.drop n, events⟩) := by
      simp [read, readChunk, hchunk]
    have hpasses : Passes ⟨chunk, events⟩ [] (chunk.take n) ⟨chunk.drop n, events⟩ :=
      ⟨rfl, by simp⟩
    rw [hread]
    exact .data hpasses (by simp) (htake hchunk) (List.length_take_le ..)

end Source

namespace Reader

open RelayMesh.Frame (header headerSize)

/-- The bytes of the current frame that a reader keeps. -/
def Progress.held : Progress → Bytes
  | unstarted | done _ | closed => []
  | header got => got
  | body type sender size got => Frame.header type sender (UInt32.ofNat size) ++ got

theorem Progress.status_bodyDone {p : Progress} : p.status = .bodyDone ↔ ∃ f, p = .done f := by
  rcases p with _ | _ | ⟨_, _, _, _ | _⟩ | _ | _ <;> simp [status]

theorem Progress.status_closed {p : Progress} : p.status = .closed ↔ p = .closed := by
  rcases p with _ | _ | ⟨_, _, _, _ | _⟩ | _ | _ <;> simp [status]

/-- A reader that reads on: its header, or its payload within the limit, is not complete. -/
def Progress.Open (limit : UInt32) : Progress → Prop
  | unstarted | done _ => True
  | header got => got.length < headerSize
  | body _ _ size got => size ≤ limit.toNat ∧ got.length < size
  | closed => False

theorem Progress.Open.first_held {limit : UInt32} {p : Progress} (h : p.Open limit) :
    Frame.first limit p.held = .incomplete := by
  cases p with
  | unstarted => exact Frame.first_short (by decide)
  | done f => exact Frame.first_short (show [].length < headerSize by decide)
  | header got => exact Frame.first_short h
  | body type sender size got =>
    obtain ⟨hlimit, hgot⟩ := h
    rw [Progress.held, Frame.first_header, if_neg (Frame.not_lt_ofNat hlimit),
      Frame.toNat_ofNat_of_le hlimit, if_neg (Nat.not_le.2 hgot)]
  | closed => exact h.elim

/-- What a reader has become, once the events in `taken` have come up and `part` has been read since
the last complete frame. -/
inductive Stands (limit : UInt32) (taken : List SourceEvent) (part : Bytes) (src : Source) :
    Progress → Prop
  | goes {p : Progress} (on : ∀ e ∈ taken, ¬ e.Ends) (still : p.Open limit)
      (held : p.held = part) : Stands limit taken part src p
  | tooLarge {type : MessageType} {sender : Id} {size : UInt32} (on : ∀ e ∈ taken, ¬ e.Ends)
      (part_eq : part = header type sender size) (above : limit < size) :
      Stands limit taken part src .closed
  | ended {front : List SourceEvent} {e : SourceEvent} (taken_eq : taken = front ++ [e])
      (on : ∀ e ∈ front, ¬ e.Ends) (ends : e.Ends) (empty : src.chunk = [])
      (first : Frame.first limit part = .incomplete) : Stands limit taken part src .closed

namespace Stands

variable {limit : UInt32} {taken more : List SourceEvent} {part : Bytes} {src : Source}
  {p : Progress}

theorem prepend (hon : ∀ e ∈ taken, ¬ e.Ends) (h : Stands limit more part src p) :
    Stands limit (taken ++ more) part src p := by
  have happend {front : List SourceEvent} (hfront : ∀ e ∈ front, ¬ e.Ends) :
      ∀ e ∈ taken ++ front, ¬ e.Ends := fun e he => (List.mem_append.1 he).elim (hon e) (hfront e)
  cases h with
  | goes on still held => exact .goes (happend on) still held
  | tooLarge on part_eq above => exact .tooLarge (happend on) part_eq above
  | ended taken_eq on ends empty first =>
    exact .ended (by rw [taken_eq, List.append_assoc]) (happend on) ends empty first

theorem first_part (h : Stands limit taken part src p) :
    Frame.first limit part = .incomplete ∨
      (∀ rest, Frame.first limit (part ++ rest) = .tooLarge) ∧ part.length = headerSize := by
  cases h with
  | goes on still held => exact .inl (held ▸ still.first_held)
  | tooLarge on part_eq above =>
    subst part_eq
    exact .inr ⟨Frame.first_above above, rfl⟩
  | ended taken_eq on ends empty first => exact .inl first

theorem part_of_done (h : Stands limit taken part src p) (hdone : p.status = .bodyDone) :
    part = [] := by
  cases h with
  | goes on still held =>
    obtain ⟨f, rfl⟩ := Progress.status_bodyDone.1 hdone
    exact held.symm
  | tooLarge | ended => exact absurd hdone (by decide)

theorem parse_part (h : Stands limit taken part src p) : (Frame.parse limit part).1 = [] := by
  rcases h.first_part with hfirst | ⟨hfirst, -⟩
  · rw [Frame.parse_incomplete hfirst]
  · rw [Frame.parse_tooLarge (List.append_nil part ▸ hfirst [])]

theorem closed_iff (h : Stands limit taken part src p) :
    p = .closed ↔ (Frame.parse limit part).2 = .tooLarge ∨ ∃ e ∈ taken, e.Ends := by
  cases h with
  | goes on still held =>
    subst held
    have hparse := Frame.parse_incomplete still.first_held
    have hopen : p ≠ .closed := by
      rintro rfl
      exact still
    simp only [hopen, hparse, reduceCtorEq, false_or, false_iff, not_exists, not_and]
    exact on
  | @tooLarge type sender size on part_eq above =>
    have hfirst : Frame.first limit (header type sender size ++ []) = .tooLarge :=
      Frame.first_above above []
    rw [List.append_nil, ← part_eq] at hfirst
    exact ⟨fun _ => .inl (by rw [Frame.parse_tooLarge hfirst]), fun _ => rfl⟩
  | @ended front e taken_eq on ends empty first =>
    have hmem : e ∈ taken := by simp [taken_eq]
    exact ⟨fun _ => .inr ⟨e, hmem, ends⟩, fun _ => rfl⟩

/-- The complete frames of what was read and of all that was to come differ only while the reader
reads on and has something to read. -/
theorem parse_upcoming {source : Source} {front : Bytes}
    (hpasses : source.Passes taken (front ++ part) src) (h : Stands limit taken part src p) :
    ∃ rest, source.upcoming = front ++ rest ∧
      (p = .closed ∨ src.upcoming = [] → (Frame.parse limit rest).1 = []) := by
  have hpart := h.parse_part
  cases h with
  | goes on still held =>
    have hupcoming := hpasses.upcoming_eq on
    refine ⟨part ++ src.upcoming, by rw [hupcoming, List.append_assoc], ?_⟩
    rintro (rfl | hempty)
    · exact still.elim
    · rwa [hempty, List.append_nil]
  | tooLarge on part_eq above =>
    have hupcoming := hpasses.upcoming_eq on
    refine ⟨part ++ src.upcoming, by rw [hupcoming, List.append_assoc], fun _ => ?_⟩
    rw [part_eq, Frame.parse_tooLarge (Frame.first_above above _)]
  | ended taken_eq on ends empty first =>
    subst taken_eq
    exact ⟨part, hpasses.upcoming_ends on ends empty, fun _ => hpart⟩

end Stands

/-- What one turn does to a reader that keeps `held`: it completes a frame, or it does not. -/
inductive Turned (limit : UInt32) (held : Bytes) (src : Source) : Progress → Source → Prop
  | completes {f : Frame} {taken : List SourceEvent} {got : Bytes} {left : Source}
      (passes : src.Passes taken got left) (on : ∀ e ∈ taken, ¬ e.Ends) (moves : got ≠ [])
      (frame_eq : held ++ got = f.bytes) (le : f.payload.length ≤ limit.toNat) :
      Turned limit held src (.done f) left
  | stands {p : Progress} {taken : List SourceEvent} {got : Bytes} {left : Source}
      (passes : src.Passes taken got left) (moves : taken ≠ [] ∨ got ≠ [] ∨ src.weight = 0)
      (undone : ∀ f, p ≠ .done f) (stands : Stands limit taken (held ++ got) left p) :
      Turned limit held src p left

section Turn

variable {limit : UInt32} {held got : Bytes} {src mid left : Source} {p : Progress}
  {taken : List SourceEvent} {type : MessageType} {sender : Id} {size : Nat}

theorem Turned.prepend (hpasses : src.Passes taken got mid) (hon : ∀ e ∈ taken, ¬ e.Ends)
    (hgot : got ≠ []) (h : Turned limit (held ++ got) mid p left) :
    Turned limit held src p left := by
  have hmoves (more : Bytes) : got ++ more ≠ [] := by simp [hgot]
  cases h with
  | completes passes on moves frame_eq le =>
    refine .completes (hpasses.trans passes) ?_ (hmoves _) ?_ le
    · exact fun e he => (List.mem_append.1 he).elim (hon e) (on e)
    · rw [← List.append_assoc, frame_eq]
  | stands passes moves undone stands =>
    rw [List.append_assoc] at stands
    exact .stands (hpasses.trans passes) (.inr (.inl (hmoves _))) undone (stands.prepend hon)

/-- A reader that is at the end of its source stays as it is, or closes. -/
theorem Turned.pending (hpasses : src.Passes taken [] left) (hon : ∀ e ∈ taken, ¬ e.Ends)
    (hmoves : taken ≠ [] ∨ src.weight = 0) (hopen : p.Open limit) (hundone : ∀ f, p ≠ .done f) :
    Turned limit p.held src p left :=
  .stands hpasses (hmoves.imp_right .inr) hundone
    (.goes hon hopen (List.append_nil p.held).symm)

theorem Turned.closed {e : SourceEvent} (hpasses : src.Passes [e] [] left) (he : e.Ends)
    (hchunk : left.chunk = []) (hfirst : Frame.first limit held = .incomplete) :
    Turned limit held src .closed left := by
  rw [← List.append_nil held] at hfirst
  have hstands : Stands limit [e] (held ++ []) left .closed :=
    .ended (List.nil_append _).symm (by simp) he hchunk hfirst
  exact .stands hpasses (.inl (List.cons_ne_nil e [])) (by simp) hstands

theorem turned_readBody (hopen : (Progress.body type sender size got).Open limit) :
    Turned limit (Progress.body type sender size got).held src
      (readBody type sender size got src).1 (readBody type sender size got src).2 := by
  have hfirst := hopen.first_held
  obtain ⟨hlimit, hlt⟩ := id hopen
  have hgives := Source.gives_read (Nat.sub_pos_of_lt hlt) src
  unfold readBody
  rw [if_pos hlt]
  generalize src.read (size - got.length) = out at hgives ⊢
  obtain ⟨outcome, left⟩ := out
  cases hgives with
  | @data taken more _ passes goes pos le =>
    have hlength : (got ++ more).length ≤ size := by
      rw [List.length_append]
      omega
    dsimp only
    split
    next hpart =>
      refine .stands passes (.inr (.inl pos)) (by simp) (.goes goes ⟨hlimit, hpart⟩ ?_)
      simp only [Progress.held, List.append_assoc]
    next hwhole =>
      have hsize : (got ++ more).length = size := by omega
      refine .completes passes goes pos ?_ (by simpa [hsize] using hlimit)
      simp only [Progress.held, Frame.bytes, header, hsize, List.append_assoc]
  | pending passes goes moves => exact .pending passes goes moves hopen (by simp)
  | closed passes ends empty => exact .closed passes ends empty hfirst

theorem eq_header_of_length {bytes : Bytes} (h : bytes.length = headerSize) :
    ∃ t₀ t₁ t₂ t₃ s₀ s₁ s₂ s₃ n₀ n₁ n₂ n₃,
      bytes = [t₀, t₁, t₂, t₃, s₀, s₁, s₂, s₃, n₀, n₁, n₂, n₃] := by
  match bytes, h with
  | [t₀, t₁, t₂, t₃, s₀, s₁, s₂, s₃, n₀, n₁, n₂, n₃], _ =>
    exact ⟨t₀, t₁, t₂, t₃, s₀, s₁, s₂, s₃, n₀, n₁, n₂, n₃, rfl⟩

theorem turned_readHeader (hopen : (Progress.header held).Open limit) :
    Turned limit held src (readHeader limit held src).1 (readHeader limit held src).2 := by
  have hfirst := hopen.first_held
  have hlt : held.length < headerSize := hopen
  have hgives := Source.gives_read (Nat.sub_pos_of_lt hlt) src
  unfold readHeader
  generalize src.read (headerSize - held.length) = out at hgives ⊢
  obtain ⟨outcome, mid⟩ := out
  cases hgives with
  | @data taken got _ passes goes pos le =>
    have hlength : (held ++ got).length ≤ headerSize := by
      rw [List.length_append]
      omega
    dsimp only
    split
    next t₀ t₁ t₂ t₃ s₀ s₁ s₂ s₃ n₀ n₁ n₂ n₃ rest heq =>
      have hrest : rest = [] := by
        rw [heq] at hlength
        simp only [List.length_cons, headerSize] at hlength
        exact List.eq_nil_of_length_eq_zero (by omega)
      have hheader : held ++ got = header (wordOf t₀ t₁ t₂ t₃) (wordOf s₀ s₁ s₂ s₃)
          (wordOf n₀ n₁ n₂ n₃) := by
        simp only [heq, hrest, header, wordBytes_wordOf, List.cons_append, List.nil_append]
      generalize wordOf t₀ t₁ t₂ t₃ = type, wordOf s₀ s₁ s₂ s₃ = sender,
        wordOf n₀ n₁ n₂ n₃ = size at hheader ⊢
      split
      next habove =>
        exact .stands passes (.inr (.inl pos)) (by simp) (.tooLarge goes hheader habove)
      next hwithin =>
        rw [UInt32.lt_iff_toNat_lt, Nat.not_lt] at hwithin
        by_cases hsize : 0 < size.toNat
        · have hbody : (Progress.body type sender size.toNat []).held = held ++ got := by
            rw [hheader, Progress.held, UInt32.ofNat_toNat, List.append_nil]
          have hopen : (Progress.body type sender size.toNat []).Open limit := ⟨hwithin, hsize⟩
          refine .prepend passes goes pos ?_
          rw [← hbody]
          exact turned_readBody hopen
        · have hzero : size = 0 := UInt32.toNat_inj.1 (Nat.eq_zero_of_not_pos hsize)
          subst hzero
          refine .completes passes goes pos ?_ (Nat.zero_le _)
          simp [hheader, header, Frame.bytes]
    next hshort =>
      have hpart : (held ++ got).length < headerSize := by
        refine Nat.lt_of_le_of_ne hlength fun hwhole => ?_
        obtain ⟨t₀, t₁, t₂, t₃, s₀, s₁, s₂, s₃, n₀, n₁, n₂, n₃, heq⟩ := eq_header_of_length hwhole
        exact hshort _ _ _ _ _ _ _ _ _ _ _ _ _ heq
      exact .stands passes (.inr (.inl pos)) (by simp) (.goes goes hpart rfl)
  | pending passes goes moves => exact .pending passes goes moves hopen (by simp)
  | closed passes ends empty => exact .closed passes ends empty hfirst

theorem turned_pump (hopen : p.Open limit) :
    Turned limit p.held src (pump limit p src).1 (pump limit p src).2 := by
  have hfresh : (Progress.header []).Open limit := show [].length < headerSize by decide
  cases p with
  | unstarted => exact turned_readHeader hfresh
  | done f => exact turned_readHeader hfresh
  | header got => exact turned_readHeader hopen
  | body type sender size got => exact turned_readBody hopen
  | closed => exact hopen.elim

end Turn

end Reader

/-- A reader at its source, with the frames that it has given so far. -/
structure Reading where
  frames : List Frame
  reader : Reader
  source : Source

namespace Reading

def start (limit : UInt32) (events : List SourceEvent) : Reading :=
  ⟨[], Reader.new limit, ⟨[], events⟩⟩

/-- After one more turn. A turn gives the frame that it leaves ready. -/
def next (g : Reading) : Reading :=
  let (reader, source) := g.reader.turn g.source
  ⟨g.frames ++ reader.frame.toOption.toList, reader, source⟩

def after (g : Reading) : Nat → Reading
  | 0 => g
  | n + 1 => (g.after n).next

/-- After `n` turns: what has been read is the frames that were given and what the reader keeps, and
every turn has taken something from the source, as long as there was something to take. -/
structure Follows (limit : UInt32) (source : Source) (n : Nat) (g : Reading) : Prop where
  limit_eq : g.reader.limit = limit
  fits : ∀ f ∈ g.frames, f.payload.length ≤ limit.toNat
  stands : ∃ taken part, source.Passes taken (g.frames.flatMap Frame.bytes ++ part) g.source ∧
    Reader.Stands limit taken part g.source g.reader.progress
  weight : g.reader.progress = .closed ∨ g.source.weight = 0 ∨
    n + g.source.weight ≤ source.weight

variable {limit : UInt32} {source : Source} {n : Nat} {g : Reading}

theorem follows_start (limit : UInt32) (events : List SourceEvent) :
    (start limit events).Follows limit ⟨[], events⟩ 0 where
  limit_eq := rfl
  fits := fun _ h => absurd h List.not_mem_nil
  stands := ⟨[], [], .refl _, .goes (fun _ h => absurd h List.not_mem_nil) trivial rfl⟩
  weight := .inr (.inr (Nat.le_of_eq (Nat.zero_add _)))

theorem next_of_done {f : Frame} {left : Source}
    (h : Reader.pump g.reader.limit g.reader.progress g.source = (.done f, left)) :
    g.next = ⟨g.frames ++ [f], ⟨g.reader.limit, .done f⟩, left⟩ := by
  simp only [next, Reader.turn, h]
  rfl

theorem next_of_undone {p : Reader.Progress} {left : Source}
    (h : Reader.pump g.reader.limit g.reader.progress g.source = (p, left))
    (hp : ∀ f, p ≠ .done f) : g.next = ⟨g.frames, ⟨g.reader.limit, p⟩, left⟩ := by
  simp only [next, Reader.turn, h]
  cases p with
  | done f => exact absurd rfl (hp f)
  | _ => exact congrArg (Reading.mk · _ _) (List.append_nil g.frames)

theorem turn_of_closed {r : Reader} (h : r.progress = .closed) (src : Source) :
    r.turn src = (r, src) := by
  obtain ⟨limit, p⟩ := r
  subst h
  rfl

theorem next_of_closed (h : g.reader.progress = .closed) : g.next = g := by
  obtain ⟨frames, ⟨limit, p⟩, src⟩ := g
  subst h
  exact next_of_undone rfl (by simp)

theorem Follows.next (h : g.Follows limit source n) : g.next.Follows limit source (n + 1) := by
  by_cases hclosed : g.reader.progress = .closed
  · rw [next_of_closed hclosed]
    exact { h with weight := .inl hclosed }
  obtain ⟨hlimit, hfits, ⟨taken, part, hpasses, hstands⟩, hweight⟩ := h
  obtain ⟨on, still, held⟩ : (∀ e ∈ taken, ¬ e.Ends) ∧ g.reader.progress.Open limit ∧
      g.reader.progress.held = part := by
    generalize g.reader.progress = p at hclosed hstands
    cases hstands with
    | goes on still held => exact ⟨on, still, held⟩
    | tooLarge | ended => exact absurd rfl hclosed
  have hturned : Reader.Turned limit part g.source _ _ := held ▸ Reader.turned_pump still
  generalize hpump : Reader.pump limit g.reader.progress g.source = out at hturned
  obtain ⟨p, left⟩ := out
  rw [← hlimit] at hpump
  cases hturned with
  | @completes f more _ _ passes goes moves frame_eq le =>
    rw [next_of_done hpump]
    refine ⟨hlimit, ?_, ⟨taken ++ more, [], ?_, .goes ?_ trivial rfl⟩, ?_⟩
    · intro f hf
      rcases List.mem_append.1 hf with hf | hf
      · exact hfits f hf
      · exact List.mem_singleton.1 hf ▸ le
    · simpa [List.append_assoc, frame_eq] using hpasses.trans passes
    · exact fun e he => (List.mem_append.1 he).elim (on e) (goes e)
    · have hlength := List.length_pos_iff.2 moves
      have htotal := passes.weight_eq
      simp only [hclosed, false_or] at hweight
      dsimp only at htotal ⊢
      omega
  | @stands _ more got _ passes moves undone stands =>
    rw [next_of_undone hpump undone]
    refine ⟨hlimit, hfits, ⟨_, part ++ got, ?_, stands.prepend on⟩, ?_⟩
    · simpa [List.append_assoc] using hpasses.trans passes
    · have htotal := passes.weight_eq
      simp only [hclosed, false_or] at hweight
      simp only [← List.length_pos_iff] at moves
      dsimp only at htotal ⊢
      omega

theorem follows_after (limit : UInt32) (events : List SourceEvent) (n : Nat) :
    ((start limit events).after n).Follows limit ⟨[], events⟩ n := by
  induction n with
  | zero => exact follows_start limit events
  | succ n ih => exact ih.next

theorem frame_ready_iff {r : Reader} : (∃ f, r.frame = .ok f) ↔ r.status = .bodyDone := by
  rw [Reader.status, Reader.Progress.status_bodyDone]
  obtain ⟨limit, p⟩ := r
  cases p <;> simp [Reader.frame]

/-- After any number of turns, the frames that a reader has given are the complete frames of the bytes
that it has read, and it has read nothing beyond the frame after them. It is closed exactly if a
header announced too much or the source ended, and then reads nothing more. After enough turns the
frames are those of all that the source had to deliver, however it was cut into chunks. -/
theorem frames_parse (limit : UInt32) (events : List SourceEvent) (n : Nat) :
    let g := (start limit events).after n
    let all := (⟨[], events⟩ : Source).upcoming
    (∃ taken got part, events = taken ++ g.source.events ∧
      taken.flatMap SourceEvent.bytes = got ++ g.source.chunk ∧
      got = g.frames.flatMap Frame.bytes ++ part ∧
      (Frame.parse limit got).1 = g.frames ∧
      (g.reader.status = .bodyDone → part = []) ∧
      (Frame.first limit part = .incomplete ∨
        Frame.first limit part = .tooLarge ∧ part.length = Frame.headerSize) ∧
      (g.reader.status = .closed ↔
        (Frame.parse limit got).2 = .tooLarge ∨ ∃ e ∈ taken, e.Ends)) ∧
    g.frames <+: (Frame.parse limit all).1 ∧
    (events.length + (events.flatMap SourceEvent.bytes).length ≤ n →
      g.frames = (Frame.parse limit all).1) ∧
    (g.reader.status = .closed → ∀ src, g.reader.turn src = (g.reader, src)) ∧
    ((∃ f, g.reader.frame = .ok f) ↔ g.reader.status = .bodyDone) := by
  intro g all
  obtain ⟨-, hfits, ⟨taken, part, hpasses, hstands⟩, hweight⟩ := follows_after limit events n
  have hgot := Frame.parse_flatMap_bytes hfits part
  rw [hstands.parse_part, List.append_nil] at hgot
  obtain ⟨rest, hall, hrest⟩ := hstands.parse_upcoming hpasses
  have hparse : (Frame.parse limit all).1 = g.frames ++ (Frame.parse limit rest).1 := by
    rw [show all = _ from hall, Frame.parse_flatMap_bytes hfits]
  refine ⟨⟨taken, _, part, hpasses.events, hpasses.bytes, rfl, congrArg Prod.fst hgot, ?_, ?_, ?_⟩,
    ⟨_, hparse.symm⟩, fun hn => ?_, fun h => turn_of_closed (Reader.Progress.status_closed.1 h),
    frame_ready_iff⟩
  · exact fun h => hstands.part_of_done h
  · exact hstands.first_part.imp_right fun ⟨hfirst, hlength⟩ =>
      ⟨List.append_nil part ▸ hfirst [], hlength⟩
  · rw [Reader.status, Reader.Progress.status_closed, hgot]
    exact hstands.closed_iff
  · rw [hparse, hrest, List.append_nil]
    refine hweight.imp_right fun hweight => Source.upcoming_of_weight ?_
    have hstart : (⟨[], events⟩ : Source).weight ≤ n := by simpa [Source.weight] using hn
    omega

end Reading

end RelayMesh
