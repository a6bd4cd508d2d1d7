import RelayMesh.Proofs.Chat.Clients

namespace RelayMesh

/-- The frame in which its client sends the line. -/
def ChatLine.frame (l : ChatLine) : Frame :=
  ⟨MessageType.chat, l.sender, Wire.encodeMessage l.message⟩

namespace Client

/-- The line that the client sends next, if it sends this text. -/
def line (c : Client) (text : String) : ChatLine := ⟨c.identity, c.nextSequence, text⟩

/-- What waits to be written onto the connection. -/
def waiting (c : Client) : List Frame := c.queue.elim [] (·.frames)

/-- Why a line is not sent: the size is looked at first, and then the queue. -/
inductive Refuses (c : Client) (text : String) : Fault → Prop
  | tooLarge (h : c.limit.toNat < (c.line text).frame.payload.length) :
      Refuses c text (.messageTooLarge (min (c.line text).frame.payload.length maxWord))
  | gone (hsize : (c.line text).frame.payload.length ≤ c.limit.toNat) (h : c.queue = none) :
      Refuses c text (.connectionFailed .queueGone)
  | full {queue : SendQueue} (hsize : (c.line text).frame.payload.length ≤ c.limit.toNat)
      (hqueue : c.queue = some queue) (h : queue.capacity ≤ queue.frames.length) :
      Refuses c text .sendQueueFull

/-- Puts a frame into the queue, and answers whether it is there. -/
def enqueue (c : Client) (frame : Frame) : Except Fault Unit × Client :=
  match c.queue with
  | none => (.error (.connectionFailed .queueGone), c)
  | some queue =>
    match queue.push frame with
    | .ok longer => (.ok (), { c with queue := some longer })
    | .error why => (.error why, c)

/-- A call that is to send a line, one step after the other: its answer, and the client as the steps
have left it, up to the end or up to one that fails. -/
def call (c : Client) (text : String) : Except Fault Nat × Client :=
  match Frame.ofMessage MessageType.chat c.identity (c.line text).message c.limit with
  | .error why => (.error why, c)
  | .ok frame =>
    match c.enqueue frame with
    | (.error why, c) => (.error why, c)
    | (.ok (), after) => (.ok c.nextSequence, { after with nextSequence := after.nextSequence + 1 })

section Calls

variable {c : Client} {text : String} {why : Fault}

theorem sendChat_eq_error_iff : c.sendChat text = .error why ↔ c.Refuses text why := by
  simp only [sendChat, Fault.bind_eq_error_iff, Frame.ofMessage_eq_error_iff,
    Frame.ofMessage_eq_ok_iff]
  constructor
  · rintro (⟨hlarge, rfl⟩ | ⟨frame, ⟨hsize, rfl⟩, h⟩)
    · exact .tooLarge hlarge
    · cases hqueue : c.queue with
      | none =>
        simp only [hqueue, Except.error.injEq] at h
        exact h ▸ .gone hsize hqueue
      | some queue =>
        simp only [hqueue, Fault.bind_eq_error_iff, SendQueue.push_eq_error_iff] at h
        obtain ⟨hfull, rfl⟩ | ⟨_, -, ⟨⟩⟩ := h
        exact .full hsize hqueue hfull
  · rintro (hlarge | ⟨hsize, hqueue⟩ | ⟨hsize, hqueue, hfull⟩)
    · exact .inl ⟨hlarge, rfl⟩
    · exact .inr ⟨_, ⟨hsize, rfl⟩, by rw [hqueue]⟩
    · refine .inr ⟨_, ⟨hsize, rfl⟩, ?_⟩
      simp only [hqueue, Fault.bind_eq_error_iff, SendQueue.push_eq_error_iff]
      exact .inl ⟨hfull, trivial⟩

/-- A line that is too long is refused before the queue is touched. -/
theorem call_of_lt (h : c.limit.toNat < (c.line text).frame.payload.length) : c.call text =
    (.error (.messageTooLarge (min (c.line text).frame.payload.length maxWord)), c) := by
  have hframe : Frame.ofMessage MessageType.chat c.identity (c.line text).message c.limit =
      .error (.messageTooLarge (min (c.line text).frame.payload.length maxWord)) :=
    Frame.ofMessage_eq_error_iff.2 ⟨h, rfl⟩
  rw [call, hframe]

/-- Of any other line it is the queue that decides. -/
theorem call_of_le (h : (c.line text).frame.payload.length ≤ c.limit.toNat) : c.call text =
    match c.enqueue (c.line text).frame with
    | (.error why, c) => (.error why, c)
    | (.ok (), after) =>
      (.ok c.nextSequence, { after with nextSequence := after.nextSequence + 1 }) := by
  have hframe : Frame.ofMessage MessageType.chat c.identity (c.line text).message c.limit =
      .ok (c.line text).frame := Frame.ofMessage_eq_ok_iff.2 ⟨h, rfl⟩
  rw [call, hframe]

/-- The steps together are `sendChat`, and one that fails leaves nothing behind of those before it. -/
theorem call_eq (c : Client) (text : String) : c.call text =
    match c.sendChat text with
    | .ok (after, number) => (.ok number, after)
    | .error why => (.error why, c) := by
  cases hsend : c.sendChat text with
  | error why =>
    rcases sendChat_eq_error_iff.1 hsend with hlarge | ⟨hsize, hqueue⟩ | ⟨hsize, hqueue, hfull⟩
    · exact call_of_lt hlarge
    · rw [call_of_le hsize, enqueue, hqueue]
    · rw [call_of_le hsize, enqueue, hqueue]
      dsimp only
      rw [SendQueue.push_eq_error_iff.2 ⟨hfull, rfl⟩]
  | ok sent =>
    obtain ⟨frame, queue, hframe, hqueue, hspace, hafter, hnumber⟩ := sendChat_eq_ok_iff.1 hsend
    obtain ⟨hsize, rfl⟩ := Frame.ofMessage_eq_ok_iff.1 hframe
    rw [call_of_le hsize, enqueue, hqueue]
    dsimp only
    rw [SendQueue.push_eq_ok_iff.2 ⟨hspace, rfl⟩, hafter, hnumber]
    rfl

end Calls

/-- A call that has been made, with the client before and after it. -/
structure Call where
  text : String
  before : Client
  answer : Except Fault Nat
  after : Client
deriving DecidableEq

namespace Call

/-- The line that has been sent, under the number that was answered. -/
def line? (k : Call) : Option ChatLine :=
  match k.answer with
  | .ok number => some ⟨k.before.identity, number, k.text⟩
  | .error _ => none

/-- The call has been carried out as a whole or not at all. -/
structure Atomic (k : Call) : Prop where
  /-- It is one of `sendChat`. -/
  outcome : k.before.sendChat k.text = k.answer.map fun number => (k.after, number)
  refused : ∀ why, k.answer = .error why ↔ k.before.Refuses k.text why
  unchanged : ∀ why, k.answer = .error why → k.after = k.before
  sent : ∀ l, k.line? = some l → l.sequence = k.before.sentCount ∧
    k.after.sentCount = k.before.sentCount + 1 ∧ k.after.waiting = k.before.waiting ++ [l.frame]
  written : ∀ l, k.line? = some l → l.frame.Carries l.message
  kept : k.after =
    { k.before with queue := k.after.queue, nextSequence := k.after.nextSequence }

end Call

/-- The call with this text that is made now. -/
def makeCall (c : Client) (text : String) : Call := ⟨text, c, (c.call text).1, (c.call text).2⟩

theorem atomic_call (c : Client) (text : String) : (c.makeCall text).Atomic := by
  have hcall := c.call_eq text
  cases hsend : c.sendChat text with
  | error why =>
    have hmade : c.makeCall text = ⟨text, c, .error why, c⟩ := by rw [makeCall, hcall, hsend]
    rw [hmade]
    refine ⟨hsend, fun other => ?_, fun _ _ => rfl, nofun, nofun, rfl⟩
    rw [← sendChat_eq_error_iff, hsend, Except.error.injEq, Except.error.injEq]
  | ok sent =>
    obtain ⟨frame, queue, hframe, hqueue, -, hafter, hnumber⟩ := sendChat_eq_ok_iff.1 hsend
    obtain ⟨-, rfl⟩ := Frame.ofMessage_eq_ok_iff.1 hframe
    have hmade : c.makeCall text = ⟨text, c, .ok c.nextSequence, sent.1⟩ := by
      rw [makeCall, hcall, hsend, ← hnumber]
    have hwaiting : sent.1.waiting = c.waiting ++ [(c.line text).frame] := by
      simp only [hafter, waiting, hqueue, Option.elim_some]
      rfl
    rw [hmade]
    refine ⟨hnumber ▸ hsend, fun why => ?_, nofun, fun l hl => ?_, fun l hl => ?_, ?_⟩
    · rw [← sendChat_eq_error_iff, hsend]
      exact ⟨nofun, nofun⟩
    · obtain rfl := Option.some.inj hl
      exact ⟨rfl, congrArg (·.nextSequence) hafter, hwaiting⟩
    · obtain rfl := Option.some.inj hl
      exact Frame.carries_of_ofMessage hframe
    · rw [hafter]

/-- What happens to a client and its connection. -/
inductive Event
  /-- The client is asked to send a line. -/
  | say (text : String)
  /-- The oldest of the frames that wait are written onto the connection. -/
  | write (count : Nat)
  /-- The connection takes no frames any more, and those that wait are lost. -/
  | lose
  /-- A frame arrives. -/
  | hear (frame : Frame)
  | close
deriving DecidableEq

/-- A client, with all that has gone through its queue and all calls that have been made. -/
structure Log where
  client : Client
  /-- The frames that wait no more, the oldest first. -/
  left : List Frame := []
  calls : List Call := []
deriving DecidableEq

theorem arrive_kept (c : Client) (f : Frame) :
    c.arrive f = { c with received := (c.arrive f).received } := by
  unfold arrive
  repeat' split
  all_goals rfl

namespace Log

/-- A client that has just been given its identity. -/
def start (identity server : Id) (limit : UInt32) (capacity : Nat) : Log where
  client := { identity, server, limit, queue := some { capacity } }

/-- The frames that the queue has taken, the oldest first. -/
def accepted (log : Log) : List Frame := log.left ++ log.client.waiting

/-- The lines of the calls that have succeeded. -/
def lines (log : Log) : List ChatLine := log.calls.filterMap Call.line?

def next (log : Log) : Event → Log
  | .say text =>
    let made := log.client.makeCall text
    { log with client := made.after, calls := log.calls ++ [made] }
  | .write count =>
    { log with
      client.queue := log.client.queue.map fun q => { q with frames := q.frames.drop count }
      left := log.left ++ log.client.waiting.take count }
  | .lose => { log with client.queue := none, left := log.accepted }
  | .hear frame => { log with client := log.client.arrive frame }
  | .close => { log with client := log.client.close }

def play (log : Log) (events : List Event) : Log := events.foldl next log

/-- The calls that succeeded have the numbers 0, 1, 2, …, and their lines are what the queue has
taken. -/
structure Numbered (log : Log) (id : Id) : Prop where
  identity : log.client.identity = id
  numbers : log.lines.map (·.sequence) = List.range log.client.sentCount
  accepted : log.accepted = log.lines.map ChatLine.frame
  senders : ∀ l ∈ log.lines, l.sender = id
  written : ∀ l ∈ log.lines, l.frame.Carries l.message
  calls : ∀ k ∈ log.calls, k.Atomic

variable {log log' : Log} {id : Id}

theorem numbered_start (id server : Id) (limit : UInt32) (capacity : Nat) :
    (start id server limit capacity).Numbered id where
  identity := rfl
  numbers := rfl
  accepted := rfl
  senders := fun _ hl => absurd hl List.not_mem_nil
  written := fun _ hl => absurd hl List.not_mem_nil
  calls := fun _ hk => absurd hk List.not_mem_nil

/-- The client has sent no line, and the queue has taken none. -/
theorem Numbered.keep (h : log.Numbered id) (hlines : log'.lines = log.lines)
    (hcalls : ∀ k ∈ log'.calls, k.Atomic) (haccepted : log'.accepted = log.accepted)
    (hid : log'.client.identity = log.client.identity)
    (hcount : log'.client.sentCount = log.client.sentCount) : log'.Numbered id where
  identity := hid.trans h.identity
  numbers := by rw [hlines, hcount, h.numbers]
  accepted := by rw [hlines, haccepted, h.accepted]
  senders := hlines ▸ h.senders
  written := hlines ▸ h.written
  calls := hcalls

theorem lines_say (log : Log) (text : String) :
    (log.next (.say text)).lines = log.lines ++ (log.client.makeCall text).line?.toList := by
  rw [lines, next, List.filterMap_append, lines]
  cases hline : (log.client.makeCall text).line? <;> simp [hline]

theorem Numbered.say (h : log.Numbered id) (text : String) :
    (log.next (.say text)).Numbered id := by
  have hmade := log.client.atomic_call text
  have hlines := log.lines_say text
  have hcalls : ∀ k ∈ log.calls ++ [log.client.makeCall text], k.Atomic := by
    rw [List.forall_mem_append, List.forall_mem_singleton]
    exact ⟨h.calls, hmade⟩
  have hid : (log.next (.say text)).client.identity = log.client.identity :=
    congrArg (·.identity) hmade.kept
  cases hanswer : (log.client.makeCall text).answer with
  | error why =>
    have hafter : (log.next (.say text)).client = log.client := hmade.unchanged why hanswer
    have hnone : (log.client.makeCall text).line? = none := by rw [Call.line?, hanswer]
    rw [hnone, Option.toList_none, List.append_nil] at hlines
    refine h.keep hlines hcalls ?_ hid (congrArg sentCount hafter)
    exact congrArg (log.left ++ ·.waiting) hafter
  | ok number =>
    have hline : (log.client.makeCall text).line? =
      some ⟨log.client.identity, number, text⟩ := by rw [Call.line?, hanswer]; rfl
    obtain ⟨hnumber, hcount, hwaiting⟩ := hmade.sent _ hline
    rw [hline, Option.toList_some] at hlines
    have hcount : (log.next (.say text)).client.sentCount = log.client.sentCount + 1 := hcount
    have hwaiting : (log.next (.say text)).client.waiting = log.client.waiting ++ _ := hwaiting
    refine ⟨hid.trans h.identity, ?_, ?_, ?_, ?_, hcalls⟩
    · rw [hlines, hcount, List.range_succ, List.map_append, h.numbers]
      exact congrArg (_ ++ [·]) hnumber
    · rw [hlines, Log.accepted, hwaiting, ← List.append_assoc, List.map_append, ← h.accepted]
      rfl
    · rw [hlines, List.forall_mem_append, List.forall_mem_singleton]
      exact ⟨h.senders, h.identity⟩
    · rw [hlines, List.forall_mem_append, List.forall_mem_singleton]
      exact ⟨h.written, hmade.written _ hline⟩

theorem accepted_write (log : Log) (count : Nat) :
    (log.next (.write count)).accepted = log.accepted := by
  unfold accepted next waiting
  dsimp only
  cases log.client.queue with
  | none => simp
  | some queue => simp

theorem Numbered.next (h : log.Numbered id) (e : Event) : (log.next e).Numbered id := by
  cases e with
  | say text => exact h.say text
  | write count => exact h.keep rfl h.calls (log.accepted_write count) rfl rfl
  | lose => exact h.keep rfl h.calls (List.append_nil _) rfl rfl
  | hear frame =>
    have hheard := log.client.arrive_kept frame
    exact h.keep rfl h.calls (congrArg (log.left ++ ·.waiting) hheard) (congrArg (·.identity) hheard)
      (congrArg (·.nextSequence) hheard)
  | close => exact h.keep rfl h.calls rfl rfl rfl

theorem Numbered.play (h : log.Numbered id) (events : List Event) :
    (log.play events).Numbered id := by
  induction events generalizing log with
  | nil => exact h
  | cons e events ih => exact ih (h.next e)

/-- Later lines have greater numbers. -/
theorem Numbered.rising (h : log.Numbered id) : log.lines.Pairwise (·.sequence < ·.sequence) := by
  have hnumbers : (log.lines.map (·.sequence)).Pairwise (· < ·) := by
    rw [h.numbers]
    exact List.pairwise_lt_range
  exact List.pairwise_map.1 hnumbers

theorem Numbered.sentCount_eq (h : log.Numbered id) : log.client.sentCount = log.lines.length := by
  have hlength := congrArg List.length h.numbers
  rw [List.length_map, List.length_range] at hlength
  exact hlength.symm

end Log

end Client

/-- A new line that is recorded is the newest one. -/
theorem Routes.get?_recordChat_of_new {t : Routes} {id : Id} {k : Nat}
    (h : t.isNewChat id k = true) : (t.recordChat id k).lastChat.get? id = some k := by
  rw [get?_recordChat, if_pos rfl]
  cases hlast : t.lastChat.get? id with
  | none => simp
  | some last =>
    have hlt := isNewChat_eq_true_iff.1 h last hlast
    rw [Option.getD_some, Nat.max_eq_right (Nat.le_of_lt hlt)]

namespace Server

variable {s : Server} {l : ChatLine} {lines : List ChatLine} {id : Id}

/-- A server that has got these lines of a client, in this order. In between anything may have happened
there that leaves alone what is recorded of the client. -/
inductive Got (id : Id) : List ChatLine → Server → Prop
  | nothing {s : Server} (h : s.routes.lastChat.get? id = none) : Got id [] s
  | line {lines : List ChatLine} {s : Server} (h : Got id lines s) (hooks : Interception)
      (link : LinkId) (l : ChatLine) : Got id (lines ++ [l]) (s.arrive hooks link l.frame).1
  | other {lines : List ChatLine} {s s' : Server} (h : Got id lines s)
      (hsame : s'.routes.lastChat.get? id = s.routes.lastChat.get? id) : Got id lines s'

theorem lastChat_arrive_line (hl : l.frame.Carries l.message) (hooks : Interception) (s : Server)
    (link : LinkId) : (s.arrive hooks link l.frame).1.routes.lastChat = s.routes.lastChat ∨
      s.routes.isNewChat l.sender l.sequence = true ∧
        (s.arrive hooks link l.frame).1.routes.lastChat =
          (s.routes.recordChat l.sender l.sequence).lastChat := by
  unfold arrive
  split
  · exact .inl rfl
  unfold handleFrame
  split
  next other route msg hentry hread =>
    have hsender : msg.sender = l.sender := (hl.header hread).1
    have hseq : msg.sequence? = some l.sequence := hl.sequence? hread
    have hrelayed (s' : Server) (hlast : s'.routes.lastChat = s.routes.lastChat) :
        (s'.relayChat l.frame.type msg).routes.lastChat = s.routes.lastChat ∨
          s.routes.isNewChat l.sender l.sequence = true ∧
            (s'.relayChat l.frame.type msg).routes.lastChat =
              (s.routes.recordChat l.sender l.sequence).lastChat := by
      have hrelay := lastChat_relayChat_eq (s := s') hseq l.frame.type
      rw [isNews, hseq, Option.any_some, Routes.isNewChat, Routes.recordChat, hlast, hsender] at hrelay
      exact hrelay
    split
    · split
      · exact hrelayed s rfl
      · exact .inl rfl
    · rw [dispatch, if_pos (show MessageType.isForClients l.frame.type = true from rfl)]
      exact hrelayed _ (s.hush_learnRoutes msg route.link).lastChat
  next => exact .inl rfl

/-- What is recorded of the client is one of the lines that came. -/
theorem Got.recorded (h : Got id lines s)
    (hl : ∀ l ∈ lines, l.sender = id ∧ l.frame.Carries l.message) {last : Nat}
    (hlast : s.routes.lastChat.get? id = some last) : ∃ l ∈ lines, l.sequence = last := by
  induction h generalizing last with
  | nothing hnone => simp [hnone] at hlast
  | other _ hsame ih => exact ih hl (hsame ▸ hlast)
  | @line lines s _ hooks link l ih =>
    obtain ⟨hsender, hcarries⟩ := hl l (by simp)
    have hbefore := fun l' hl' => hl l' (List.mem_append_left [l] hl')
    rcases lastChat_arrive_line hcarries hooks s link with hold | ⟨hnew, hrecord⟩
    · rw [hold] at hlast
      obtain ⟨l', hmem, hl'⟩ := ih hbefore hlast
      exact ⟨l', List.mem_append_left _ hmem, hl'⟩
    · refine ⟨l, by simp, ?_⟩
      rw [hsender] at hnew hrecord
      rw [hrecord, Routes.get?_recordChat_of_new hnew] at hlast
      exact Option.some.inj hlast

end Server

namespace Client

/-- Whatever texts a client is asked to send, and whatever happens to its connection in between: each
call sends its line as a whole or leaves the client as it is. The lines that are sent have the numbers
0, 1, 2, …, which the calls answer, and the queue takes them in this order, one frame each; a line is
read from its frame as it was sent while its number fits into 64 bits. A server that gets some of them
in this order, and no others of the client, takes none for an old one. -/
theorem numbered_without_gaps (identity server : Id) (limit : UInt32) (capacity : Nat)
    (events : List Event) :
    let log := (Log.start identity server limit capacity).play events
    (∀ k ∈ log.calls, k.Atomic) ∧
    log.lines.map (·.sequence) = List.range log.lines.length ∧
    log.accepted = log.lines.map ChatLine.frame ∧
    (∀ l ∈ log.lines, l.sequence < UInt64.size → l.frame.message = .ok l.message) ∧
    log.client.sentCount = log.lines.length ∧
    ∀ before l after s, (before ++ l :: after).Sublist log.lines → Server.Got identity before s →
      s.routes.isNewChat identity l.sequence = true := by
  intro log
  have h : log.Numbered identity := (Log.numbered_start identity server limit capacity).play events
  refine ⟨h.calls, h.sentCount_eq ▸ h.numbers, h.accepted, fun l hl hfits => ?_, h.sentCount_eq, ?_⟩
  · exact (h.written l hl).message_of_fits hfits
  · intro before l after s hsome hgot
    have hbefore : before.Sublist log.lines := (List.sublist_append_left _ _).trans hsome
    have hrising := h.rising.sublist hsome
    refine Routes.isNewChat_eq_true_iff.2 fun last hlast => ?_
    obtain ⟨l', hl', rfl⟩ := hgot.recorded
      (fun l hl => ⟨h.senders l (hbefore.subset hl), h.written l (hbefore.subset hl)⟩) hlast
    exact (List.pairwise_append.1 hrising).2.2 l' hl' l List.mem_cons_self

/-- One call for each reason to fail, among two that succeed. -/
def interrupted : List Event :=
  [.say "hello", .say "again", .write 1, .say "too long", .say "again", .lose, .say "hello"]

/-- A server with this client and another one. -/
def host : Server :=
  { ((Server.new 1 {}).addClient 100 0).addClient 101 1 with
    outbox := Outbox.addLink .empty 1 1 }

theorem numbered_without_gaps_interrupted :
    let log := (Log.start 100 1 12 1).play interrupted
    let s := (host.arrive {} 0 (ChatLine.frame ⟨100, 0, "hello"⟩)).1
    log.calls.map (·.answer) = [.ok 0, .error .sendQueueFull, .error (.messageTooLarge 14), .ok 1,
      .error (.connectionFailed .queueGone)] ∧
    log.accepted = [ChatLine.frame ⟨100, 0, "hello"⟩, ChatLine.frame ⟨100, 1, "again"⟩] ∧
    log.client.sentCount = 2 ∧
    s.routes.isNewChat 100 0 = false ∧ s.routes.isNewChat 100 1 = true := by
  intro log s
  have hlines : log.lines = [⟨100, 0, "hello"⟩, ⟨100, 1, "again"⟩] := by decide +kernel
  have hgot : Server.Got 100 [⟨100, 0, "hello"⟩] s := .line (.nothing rfl) {} 0 _
  obtain ⟨-, -, haccepted, -, hcount, hnews⟩ := numbered_without_gaps 100 1 12 1 interrupted
  rw [hlines] at haccepted hcount hnews
  refine ⟨by decide +kernel, haccepted, hcount, by decide +kernel, ?_⟩
  exact hnews [_] ⟨100, 1, "again"⟩ [] s (.refl _) hgot

end Client

end RelayMesh
