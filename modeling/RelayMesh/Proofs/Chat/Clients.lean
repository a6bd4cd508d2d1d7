import RelayMesh.Proofs.Chat.Talk

namespace RelayMesh

/-- A client sends a line if it is short enough and the queue has space for another frame. The line
waits in its frame then. -/
theorem Client.sendChat_eq_ok_iff {c c' : Client} {text : String} {number : Nat} :
    c.sendChat text = .ok (c', number) ↔ ∃ frame queue,
      Frame.ofMessage MessageType.chat c.identity (.new c.identity (.chat c.nextSequence text))
        c.limit = .ok frame ∧ c.queue = some queue ∧ queue.frames.length < queue.capacity ∧
      c' = { c with queue := some { queue with frames := queue.frames ++ [frame] },
                    nextSequence := c.nextSequence + 1 } ∧ number = c.nextSequence := by
  simp only [sendChat, Fault.bind_eq_ok_iff]
  cases c.queue with
  | none => simp
  | some queue =>
    simp only [Fault.bind_eq_ok_iff, SendQueue.push_eq_ok_iff]
    constructor
    · rintro ⟨frame, hframe, longer, ⟨hspace, rfl⟩, ⟨⟩⟩
      exact ⟨frame, queue, hframe, rfl, hspace, rfl, rfl⟩
    · rintro ⟨frame, queue, hframe, ⟨⟩, hspace, rfl, rfl⟩
      exact ⟨frame, hframe, _, ⟨hspace, rfl⟩, rfl⟩

/-- A listening client keeps the line in a frame, unless it is its own. -/
theorem Client.arrive_eq {c : Client} (h : c.listening = true) (f : Frame) :
    c.arrive f = { c with received :=
      c.received ++ (f.chat?.bind Message.line?).toList.filter (·.sender ≠ c.identity) } := by
  unfold arrive
  rw [if_pos h]
  split
  next sender path recipient sequence text hread =>
    have hchat : f.chat? = some ⟨sender, path, recipient, .chat sequence text⟩ :=
      Frame.chat?_eq_some.2 ⟨hread, rfl⟩
    by_cases hown : sender = c.identity <;> simp [hchat, Message.line?, hown]
  next hother =>
    cases hchat : f.chat? with
    | none => simp
    | some msg =>
      obtain ⟨hread, hkind⟩ := Frame.chat?_eq_some.1 hchat
      obtain ⟨sender, path, recipient, content⟩ := msg
      cases content with
      | chat sequence text => exact absurd hread (hother sender path recipient sequence text)
      | _ => cases hkind

namespace Member

variable {p p' : Member} {text : String} {f : Frame}

/-- The client numbers what it says, and it has kept no line of its own. -/
structure Steady (p : Member) : Prop where
  count : p.said.length = p.client.nextSequence
  fits : p.said.length ≤ UInt64.size
  listening : p.client.listening = true
  own : ∀ line ∈ p.client.received, line.sender ≠ p.id
  outgoing : ∀ f ∈ p.outgoing, f.Honest

/-- The client has sent a line, in the frame `f`. -/
structure Says (p p' : Member) (text : String) (f : Frame) : Prop where
  seat : p'.seat = p.seat
  frame : Frame.ofMessage MessageType.chat p.id (.new p.id (.chat p.client.nextSequence text))
    p.client.limit = .ok f
  outgoing : p'.outgoing = p.outgoing ++ [f]
  said : p'.said = p.said ++ [text]
  next : p'.client.nextSequence = p.client.nextSequence + 1
  received : p'.client.received = p.client.received
  listening : p'.client.listening = p.client.listening
  downstream : p'.downstream = p.downstream

theorem say_cases (p : Member) (text : String) :
    p.say text = p ∨ ∃ f, p.Says (p.say text) text f := by
  cases hsend : p.client.sendChat text with
  | error why =>
    left
    simp only [say, hsend]
  | ok sent =>
    right
    obtain ⟨frame, queue, hframe, hqueue, -, hclient, -⟩ := Client.sendChat_eq_ok_iff.1 hsend
    have hsay : p.say text = { p with client := sent.1, said := p.said ++ [text] } := by
      simp only [say, hsend]
    rw [hsay, hclient]
    exact ⟨frame, rfl, hframe, by simp [Member.outgoing, hqueue], rfl, rfl, rfl, rfl, rfl⟩

theorem seat_say (p : Member) (text : String) : (p.say text).seat = p.seat := by
  rcases p.say_cases text with hsame | ⟨f, h⟩
  · rw [hsame]
  · exact h.seat

/-- The frame in which a client sends a line can be read. -/
theorem Says.chat (h : p.Says p' text f) (hfits : p.client.nextSequence < UInt64.size) :
    f.chat? = some (ChatLine.message ⟨p.id, p.client.nextSequence, text⟩) :=
  Frame.chat?_eq_some.2 ⟨(Frame.carries_of_ofMessage h.frame).message_of_fits hfits, rfl⟩

theorem Says.steady (h : p.Says p' text f) (hp : p.Steady)
    (hfits : p.client.nextSequence < UInt64.size) : p'.Steady where
  count := by rw [h.said, h.next, List.length_append, hp.count]; rfl
  fits := by rw [h.said, List.length_append, hp.count]; exact hfits
  listening := h.listening.trans hp.listening
  own := by
    rw [h.received, show p'.id = p.id from congrArg (·.2.1) h.seat]
    exact hp.own
  outgoing := by
    intro g hg
    rw [h.outgoing] at hg
    rcases List.mem_append.1 hg with hold | hnew
    · exact hp.outgoing g hold
    · rw [List.mem_singleton.1 hnew, Frame.Honest, h.chat hfits, Frame.type_of_ofMessage h.frame]
      rfl

theorem Says.lines (h : p.Says p' text f) (hp : p.Steady) :
    p'.lines = p.lines ++ [⟨p.id, p.client.nextSequence, text⟩] := by
  rw [Member.lines, Member.lines, h.said, show p'.id = p.id from congrArg (·.2.1) h.seat,
    List.zipIdx_append, List.map_append, ← hp.count]
  simp

/-- The client has said nothing. -/
structure Hush (p p' : Member) : Prop where
  seat : p'.seat = p.seat
  said : p'.said = p.said
  next : p'.client.nextSequence = p.client.nextSequence
  listening : p'.client.listening = p.client.listening

theorem hush_flush (p : Member) : p.Hush p.flush := by
  unfold flush Client.drain
  cases p.client.queue <;> exact ⟨rfl, rfl, rfl, rfl⟩

theorem outgoing_flush (p : Member) : p.flush.outgoing = p.outgoing := by
  cases hqueue : p.client.queue <;> simp [flush, Client.drain, outgoing, hqueue]

theorem received_flush (p : Member) : p.flush.client.received = p.client.received := by
  cases hqueue : p.client.queue <;> simp [flush, Client.drain, hqueue]

theorem downstream_flush (p : Member) : p.flush.downstream = p.downstream := by
  cases hqueue : p.client.queue <;> simp [flush, Client.drain, hqueue]

theorem hush_hear (hl : p.client.listening = true) : p.Hush p.hear := by
  unfold hear
  split
  · exact ⟨rfl, rfl, rfl, rfl⟩
  · rw [Client.arrive_eq hl]
    exact ⟨rfl, rfl, rfl, rfl⟩

theorem outgoing_hear (hl : p.client.listening = true) : p.hear.outgoing = p.outgoing := by
  unfold hear
  split
  · rfl
  · rw [Client.arrive_eq hl]
    rfl

theorem own_hear (hp : p.Steady) : ∀ line ∈ p.hear.client.received, line.sender ≠ p.id := by
  unfold hear
  split
  · exact hp.own
  · rw [Client.arrive_eq hp.listening]
    intro line hline
    rcases List.mem_append.1 hline with hold | hnew
    · exact hp.own line hold
    · have hother : line.sender ≠ p.client.identity := by simpa using (List.mem_filter.1 hnew).2
      exact hother

theorem Hush.steady (h : p.Hush p') (hp : p.Steady)
    (hown : ∀ line ∈ p'.client.received, line.sender ≠ p.id)
    (hout : ∀ f ∈ p'.outgoing, f.Honest) : p'.Steady where
  count := by rw [h.said, h.next, hp.count]
  fits := by rw [h.said]; exact hp.fits
  listening := h.listening.trans hp.listening
  own := by rwa [show p'.id = p.id from congrArg (·.2.1) h.seat]
  outgoing := hout

end Member

namespace Forum

variable {b : Id} {p : Member}

/-- A client has heard the next frame: of others' lines, none is lost. -/
theorem inbox_hear (f : Forum) (hl : p.client.listening = true) (hb : p.id ≠ b) :
    (f.inbox p.hear).filter (·.sender = b) = (f.inbox p).filter (·.sender = b) := by
  unfold Member.hear
  split
  · rfl
  next g rest hdown =>
    have hkept : ((g.chat?.bind Message.line?).toList.filter (·.sender ≠ p.client.identity)).filter
        (·.sender = b) = (g.chat?.bind Message.line?).toList.filter (·.sender = b) := by
      rw [List.filter_filter]
      refine List.filter_congr fun line _ => ?_
      by_cases hline : line.sender = b
      · simp [hline, Ne.symm (show p.client.identity ≠ b from hb)]
      · simp [hline]
    rw [Client.arrive_eq hl]
    unfold inbox
    rw [hdown]
    show ((p.client.received ++ _) ++ _).filter _ = _
    simp only [List.cons_append, chats, List.filterMap_cons, List.filter_append, hkept,
      Member.home]
    cases g.chat? with
    | none => simp
    | some msg =>
      cases hline : msg.line? with
      | none => simp [hline]
      | some line => by_cases hsender : line.sender = b <;> simp [hline, hsender]

end Forum

end RelayMesh
