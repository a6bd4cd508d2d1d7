import RelayMesh.Proofs.Frame.Chunks
import Mathlib.Data.List.Induction

namespace RelayMesh

namespace Frame

/-- A buffer after one more frame was written into it. A refused frame leaves it as it is. -/
def put (limit : UInt32) (buffer : Bytes) (f : Frame) : Bytes :=
  (f.write limit buffer).toOption.getD buffer

/-- A buffer after frames were written into it, one after another. -/
def written (limit : UInt32) (frames : List Frame) : Bytes :=
  frames.foldl (put limit) []

def Fits (limit : UInt32) (f : Frame) : Prop := f.payload.length ≤ limit.toNat

instance (limit : UInt32) (f : Frame) : Decidable (f.Fits limit) :=
  inferInstanceAs (Decidable (_ ≤ _))

variable {limit limit' : UInt32} {f : Frame} {buffer : Bytes} {frames : List Frame}

theorem length_bytes (f : Frame) : f.bytes.length = headerSize + f.payload.length := by
  simp only [bytes, wordBytes, headerSize, List.length_append, List.length_cons, List.length_nil]

theorem write_of_fits (h : f.Fits limit) : f.write limit buffer = .ok (buffer ++ f.bytes) := by
  rw [write, (checkSize_eq_ok_iff (u := ())).2 h]
  rfl

theorem write_of_not_fits (h : ¬ f.Fits limit) :
    f.write limit buffer = .error (.messageTooLarge (min f.payload.length maxWord)) := by
  rw [write, checkSize_eq_error_iff.2 ⟨Nat.not_le.1 h, rfl⟩]
  rfl

theorem exists_write_iff : (∃ more, f.write limit buffer = .ok more) ↔ f.Fits limit := by
  refine ⟨fun ⟨more, hmore⟩ => ?_, fun h => ⟨_, write_of_fits h⟩⟩
  by_contra h
  rw [write_of_not_fits h] at hmore
  cases hmore

theorem put_of_fits (h : f.Fits limit) : put limit buffer f = buffer ++ f.bytes := by
  rw [put, write_of_fits h]
  rfl

theorem put_of_not_fits (h : ¬ f.Fits limit) : put limit buffer f = buffer := by
  rw [put, write_of_not_fits h]
  rfl

theorem written_append_singleton (limit : UInt32) (frames : List Frame) (f : Frame) :
    written limit (frames ++ [f]) = put limit (written limit frames) f := by
  rw [written, List.foldl_append, List.foldl_cons, List.foldl_nil, written]

/-- Only the frames within the limit leave bytes in the buffer. -/
theorem written_eq (limit : UInt32) (frames : List Frame) :
    written limit frames = (frames.filter (·.Fits limit)).flatMap bytes := by
  induction frames using List.reverseRecOn with
  | nil => rfl
  | append_singleton frames f ih =>
    rw [written_append_singleton, List.filter_append, List.flatMap_append, ← ih]
    by_cases hf : f.Fits limit
    · simp [put_of_fits hf, hf]
    · simp [put_of_not_fits hf, hf]

/-- The header of a frame that is too large for the reader, though not for the writer. -/
theorem lt_size (h : f.Fits limit) (h' : ¬ f.Fits limit') :
    limit' < UInt32.ofNat f.payload.length := by
  rw [UInt32.lt_iff_toNat_lt, toNat_ofNat_of_le h]
  exact Nat.not_le.1 h'

theorem first_of_not_fits (h : f.Fits limit) (h' : ¬ f.Fits limit') (rest : Bytes) :
    first limit' (f.bytes ++ rest) = .tooLarge := by
  rw [bytes_append, first_above (lt_size h h')]

theorem first_ne_incomplete (h : f.Fits limit) (rest : Bytes) :
    first limit' (f.bytes ++ rest) ≠ .incomplete := by
  by_cases h' : f.Fits limit'
  · rw [first_bytes h']
    exact Front.noConfusion
  · rw [first_of_not_fits h h']
    exact Front.noConfusion

/-- A header that announces too much belongs to a frame that is too large, and its payload follows. -/
theorem not_fits_of_header {type : MessageType} {sender : Id} {size : UInt32} {rest left : Bytes}
    (habove : limit' < size) (h : f.bytes ++ rest = header type sender size ++ left) :
    ¬ f.Fits limit' ∧ left = f.payload ++ rest := by
  constructor
  · intro hfits
    have hfirst := first_bytes hfits rest
    rw [h, first_above habove] at hfirst
    cases hfirst
  · rw [bytes_append] at h
    exact (List.append_inj_right h rfl).symm

/-- Frames that are found at the front of a stream of frames are its first frames, whatever their
sizes. -/
theorem prefix_of_flatMap_bytes {sent : List Frame} {rest : Bytes}
    (hsent : ∀ f ∈ sent, f.Fits limit) (hframes : ∀ f ∈ frames, f.Fits limit')
    (h : sent.flatMap bytes = frames.flatMap bytes ++ rest) :
    ∃ more, sent = frames ++ more ∧ rest = more.flatMap bytes := by
  have hmax {limit : UInt32} {f : Frame} (hf : f.Fits limit) : f.Fits (UInt32.ofNat maxWord) :=
    Nat.le_trans hf (Nat.le_of_lt_succ limit.toNat_lt)
  have hnone : parse (UInt32.ofNat maxWord) [] = ([], .incomplete []) := parse_incomplete rfl
  have hall := parse_flatMap_bytes (fun f hf => hmax (hsent f hf)) []
  have hfront := parse_flatMap_bytes (fun f hf => hmax (hframes f hf)) rest
  rw [hnone, List.append_nil, List.append_nil, h, hfront] at hall
  have hmore : sent = frames ++ (parse (UInt32.ofNat maxWord) rest).1 :=
    (congrArg Prod.fst hall).symm
  refine ⟨_, hmore, ?_⟩
  rw [hmore, List.flatMap_append] at h
  exact (List.append_cancel_left h).symm

/-- There is only one way to split a list at its first frame that is too large. -/
theorem split_unique {before before' after after' : List Frame} {f f' : Frame}
    (hbefore : ∀ b ∈ before, b.Fits limit) (hf : ¬ f.Fits limit)
    (hbefore' : ∀ b ∈ before', b.Fits limit) (hf' : ¬ f'.Fits limit)
    (h : before ++ f :: after = before' ++ f' :: after') :
    before = before' ∧ f = f' ∧ after = after' := by
  have htake {before after : List Frame} {f : Frame} (hbefore : ∀ b ∈ before, b.Fits limit)
      (hf : ¬ f.Fits limit) : (before ++ f :: after).takeWhile (·.Fits limit) = before := by
    rw [List.takeWhile_append_of_pos (by simpa using hbefore),
      List.takeWhile_cons_of_neg (by simpa using hf), List.append_nil]
  have hsame := congrArg (List.takeWhile (·.Fits limit)) h
  rw [htake hbefore hf, htake hbefore' hf'] at hsame
  subst hsame
  exact ⟨rfl, List.cons.inj (List.append_cancel_left h)⟩

end Frame

namespace Reader

variable {limit : UInt32} {taken : List SourceEvent} {part front : Bytes} {source src : Source}
  {p : Progress}

/-- A reader that reads nothing more either has all that was to come, or has read a header that
announced too much and nothing behind it. -/
theorem Stands.at_end (h : Stands limit taken part src p)
    (hpasses : source.Passes taken (front ++ part) src) (hend : p = .closed ∨ src.weight = 0) :
    source.upcoming = front ++ part ∧ Frame.first limit part = .incomplete ∨
      p = .closed ∧ ∃ type sender size, limit < size ∧
        source.upcoming = front ++ (Frame.header type sender size ++ src.upcoming) := by
  cases h with
  | goes on still held =>
    rcases hend with rfl | hweight
    · exact still.elim
    · have hupcoming := hpasses.upcoming_eq on
      rw [Source.upcoming_of_weight hweight, List.append_nil] at hupcoming
      exact .inl ⟨hupcoming, held ▸ still.first_held⟩
  | @tooLarge type sender size on part_eq above =>
    have hupcoming := hpasses.upcoming_eq on
    rw [List.append_assoc, part_eq] at hupcoming
    exact .inr ⟨rfl, type, sender, size, above, hupcoming⟩
  | ended taken_eq on ends empty first =>
    subst taken_eq
    exact .inl ⟨hpasses.upcoming_ends on ends empty, first⟩

/-- A reader that reads nothing more, and has met nothing that is too large, is closed if and only if
its source has ended. -/
theorem Stands.closed_at_end (h : Stands limit taken part src p)
    (hpasses : source.Passes taken (front ++ part) src)
    (hfirst : Frame.first limit part = .incomplete) (hend : p = .closed ∨ src.weight = 0) :
    p = .closed ↔ ∃ e ∈ source.events, e.Ends := by
  have hiff := h.closed_iff
  rw [Frame.parse_incomplete hfirst] at hiff
  simp only [reduceCtorEq, false_or] at hiff
  have hevents : source.events = taken ++ src.events := hpasses.events
  constructor
  · intro hclosed
    obtain ⟨e, he, hends⟩ := hiff.1 hclosed
    exact ⟨e, hevents ▸ List.mem_append_left _ he, hends⟩
  · rintro ⟨e, he, hends⟩
    refine hend.elim id fun hweight => hiff.2 ⟨e, ?_, hends⟩
    have hnone : src.events = [] := by
      rw [Source.weight] at hweight
      exact List.length_eq_zero_iff.1 (by omega)
    rwa [hevents, hnone, List.append_nil] at he

end Reader

namespace Reading

open RelayMesh.Frame (Fits written headerSize)

variable {limit limit' : UInt32} {frames : List Frame} {events : List SourceEvent} {n : Nat}

/-- After any number of turns, the frames that a reader has given are the first ones in the buffer.
After enough turns nothing is left, or the next one has closed the reader by its header. -/
theorem read_of_written
    (hbytes : (⟨[], events⟩ : Source).upcoming = written limit frames) (n : Nat) :
    let g := (start limit' events).after n
    ∃ more, frames.filter (·.Fits limit) = g.frames ++ more ∧ (∀ f ∈ g.frames, f.Fits limit') ∧
      (events.length + (events.flatMap SourceEvent.bytes).length ≤ n →
        more = [] ∧ (g.reader.status = .closed ↔ ∃ e ∈ events, e.Ends) ∨
        ∃ f after, more = f :: after ∧ ¬ f.Fits limit' ∧ g.reader.status = .closed ∧
          g.source.upcoming = f.payload ++ after.flatMap Frame.bytes) := by
  intro g
  have hsent : ∀ f ∈ frames.filter (·.Fits limit), f.Fits limit := fun f hf =>
    of_decide_eq_true (List.mem_filter.1 hf).2
  have hfollows : g.Follows limit' ⟨[], events⟩ n := follows_after limit' events n
  obtain ⟨-, hfits, ⟨taken, part, hpasses, hstands⟩, hweight⟩ := hfollows
  rw [Frame.written_eq] at hbytes
  obtain ⟨rest, hall, -⟩ := hstands.parse_upcoming hpasses
  obtain ⟨more, hmore, hrest⟩ :=
    Frame.prefix_of_flatMap_bytes hsent hfits (hbytes.symm.trans hall)
  rw [hmore, List.flatMap_append] at hbytes
  have hmem {f : Frame} {after : List Frame} (h : more = f :: after) : f.Fits limit :=
    hsent f (by simp [hmore, h])
  refine ⟨more, hmore, hfits, fun hn => ?_⟩
  have hend : g.reader.progress = .closed ∨ g.source.weight = 0 := by
    refine hweight.imp_right fun hweight => ?_
    have hstart : (⟨[], events⟩ : Source).weight ≤ n := by simpa [Source.weight] using hn
    omega
  rcases hstands.at_end hpasses hend with
    ⟨hupcoming, hfirst⟩ | ⟨hclosed, type, sender, size, habove, hupcoming⟩
  · refine .inl ⟨?_, ?_⟩
    · rw [hbytes, List.append_cancel_left_eq] at hupcoming
      cases more with
      | nil => rfl
      | cons f after =>
        rw [← hupcoming, List.flatMap_cons] at hfirst
        exact absurd hfirst (Frame.first_ne_incomplete (hmem rfl) _)
    · rw [Reader.status, Reader.Progress.status_closed]
      exact hstands.closed_at_end hpasses hfirst hend
  · rw [hbytes, List.append_cancel_left_eq] at hupcoming
    refine .inr ?_
    cases more with
    | nil => cases hupcoming
    | cons f after =>
      rw [List.flatMap_cons] at hupcoming
      obtain ⟨hunfit, hleft⟩ := Frame.not_fits_of_header habove hupcoming
      exact ⟨f, after, rfl, hunfit, Reader.Progress.status_closed.2 hclosed, hleft⟩

/-- Frames are written one after another into one buffer: a frame goes in exactly if its payload is
within the limit, as the twelve bytes of its header and its payload, and leaves nothing behind if it
is refused. However a source delivers that buffer, a reader with any limit of its own gives the
frames that went in, in order and as they were: all of them if they are within its limit, and else
those before the first one that is not, whose header closes it. -/
theorem written_then_read
    (hbytes : (⟨[], events⟩ : Source).upcoming = written limit frames) :
    (∀ before f after, frames = before ++ f :: after →
      let buffer := written limit before
      ((∃ more, f.write limit buffer = .ok more) ↔ f.payload.length ≤ limit.toNat) ∧
      (f.Fits limit → f.write limit buffer = .ok (written limit (before ++ [f])) ∧
        written limit (before ++ [f]) = buffer ++ f.bytes ∧
        f.bytes.length = headerSize + f.payload.length) ∧
      (¬ f.Fits limit →
        f.write limit buffer = .error (.messageTooLarge (min f.payload.length maxWord)) ∧
        written limit (before ++ [f]) = buffer)) ∧
    let sent := frames.filter (·.Fits limit)
    ∀ n, let g := (start limit' events).after n
      g.frames <+: sent ∧
      (events.length + (events.flatMap SourceEvent.bytes).length ≤ n →
        ((∀ f ∈ sent, f.Fits limit') → g.frames = sent) ∧
        (g.reader.status = .closed ↔
          (∃ f ∈ sent, ¬ f.Fits limit') ∨ ∃ e ∈ events, e.Ends) ∧
        ∀ before f after, sent = before ++ f :: after → (∀ b ∈ before, b.Fits limit') →
          ¬ f.Fits limit' →
          g.frames = before ∧ g.source.upcoming = f.payload ++ after.flatMap Frame.bytes) := by
  refine ⟨fun before f after _ => ?_, fun n => ?_⟩
  · intro buffer
    rw [Frame.written_append_singleton]
    refine ⟨Frame.exists_write_iff, fun hf => ?_, fun hf => ?_⟩
    · have hput : Frame.put limit buffer f = buffer ++ f.bytes := Frame.put_of_fits hf
      exact ⟨hput ▸ Frame.write_of_fits hf, hput, Frame.length_bytes f⟩
    · exact ⟨Frame.write_of_not_fits hf, Frame.put_of_not_fits hf⟩
  · intro g
    obtain ⟨more, hmore, hfits, hend⟩ := read_of_written hbytes n
    refine ⟨⟨more, hmore.symm⟩, fun hn => ?_⟩
    rcases hend hn with ⟨rfl, hclosed⟩ | ⟨f, after, rfl, hf, hclosed, hleft⟩
    · rw [List.append_nil] at hmore
      rw [hmore]
      refine ⟨fun _ => rfl, ?_, fun before f after h _ hf => ?_⟩
      · have hnone : ¬ ∃ f ∈ g.frames, ¬ f.Fits limit' := fun ⟨f, hmem, hf⟩ => hf (hfits f hmem)
        rw [hclosed, or_iff_right hnone]
      · exact absurd (hfits f (by rw [h]; simp)) hf
    · have hmem : f ∈ frames.filter (·.Fits limit) := by simp [hmore]
      refine ⟨fun h => absurd (h f hmem) hf, iff_of_true hclosed (.inl ⟨f, hmem, hf⟩), ?_⟩
      intro before f' after' h hbefore hf'
      rw [hmore] at h
      obtain ⟨hframes, rfl, rfl⟩ := Frame.split_unique hfits hf hbefore hf' h
      exact ⟨hframes, hleft⟩

/-- Five frames, of which the writer refuses the second, and the reader the fourth: it is as large
as the writer allows. -/
theorem written_then_read_refused :
    let frames : List Frame := [⟨0, 1, []⟩, ⟨5, 2, [1, 2, 3]⟩, ⟨1000, 7, [9]⟩,
      ⟨4294967295, 3, [4, 5]⟩, ⟨1, 1, []⟩]
    let buffer := written 2 frames
    let events := [.data (buffer.take 7), .wouldBlock, .data ((buffer.drop 7).take 20), .interrupted,
      .data (buffer.drop 27)]
    let g := (start 1 events).after 60
    (⟨[], events⟩ : Source).upcoming = buffer ∧ buffer.length = 51 ∧
      g.frames = [⟨0, 1, []⟩, ⟨1000, 7, [9]⟩] ∧ g.reader.status = .closed ∧
      g.source.upcoming = [4, 5, 0, 0, 0, 1, 0, 0, 0, 1, 0, 0, 0, 0] := by
  intro frames buffer events g
  have hbytes : (⟨[], events⟩ : Source).upcoming = buffer := by decide
  have hread := (@written_then_read 2 1 frames events hbytes).2 60
  obtain ⟨-, hclosed, hfront⟩ := hread.2 (by decide)
  obtain ⟨hframes, hleft⟩ := hfront [⟨0, 1, []⟩, ⟨1000, 7, [9]⟩] ⟨4294967295, 3, [4, 5]⟩ [⟨1, 1, []⟩]
    (by decide) (by decide) (by decide)
  have hlarge : ∃ f ∈ frames.filter (·.Fits 2), ¬ f.Fits 1 := by decide
  exact ⟨hbytes, by decide, hframes, hclosed.2 (.inl hlarge), hleft.trans (by decide)⟩

end Reading

end RelayMesh
