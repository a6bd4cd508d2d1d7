import RelayMesh.Frame
import RelayMesh.Routes

namespace RelayMesh

/-- The frames that wait on one connection, oldest first. -/
structure SendQueue where
  capacity : Nat
  frames : List Frame := []
deriving DecidableEq

namespace SendQueue

def push (q : SendQueue) (frame : Frame) : Except Fault SendQueue :=
  if q.frames.length < q.capacity then .ok { q with frames := q.frames ++ [frame] }
  else .error .sendQueueFull

variable {q q' : SendQueue} {frame : Frame} {why : Fault}

theorem push_eq_ok_iff : q.push frame = .ok q' ↔
    q.frames.length < q.capacity ∧ q' = { q with frames := q.frames ++ [frame] } := by
  unfold push
  split
  next h => simp [h, eq_comm]
  next h => simp [h]

theorem push_eq_error_iff : q.push frame = .error why ↔
    q.capacity ≤ q.frames.length ∧ why = .sendQueueFull := by
  unfold push
  split
  next h => simp [Nat.not_le.2 h]
  next h => simp [Nat.le_of_not_lt h, eq_comm]

end SendQueue

/-- The queues of the connections that still have one. -/
abbrev Outbox := SortedMap LinkId SendQueue

namespace Outbox

def addLink (o : Outbox) (link : LinkId) (capacity : Nat) : Outbox := o.insert link { capacity }

/-- Queues a frame, if the connection has a queue with room for it. -/
def push (o : Outbox) (link : LinkId) (frame : Frame) : Except Fault Outbox :=
  match o.get? link with
  | none => .error (.connectionFailed .queueGone)
  | some queue =>
    match queue.push frame with
    | .ok queue => .ok (o.insert link queue)
    | .error why => .error why

/-- Queues a frame on each of the connections that take it, and counts them. -/
def pushEach (o : Outbox) (frame : Frame) : List LinkId → Outbox × Nat
  | [] => (o, 0)
  | link :: rest =>
    match o.push link frame with
    | .ok o =>
      let (o, sent) := o.pushEach frame rest
      (o, sent + 1)
    | .error _ => o.pushEach frame rest

def waiting (o : Outbox) (link : LinkId) : List Frame :=
  match o.get? link with
  | none => []
  | some queue => queue.frames

def drain (o : Outbox) (link : LinkId) : Outbox × List Frame :=
  match o.get? link with
  | none => (o, [])
  | some queue => (o.insert link { queue with frames := [] }, queue.frames)

theorem push_eq_ok_iff {o o' : Outbox} {link : LinkId} {frame : Frame} :
    o.push link frame = .ok o' ↔ ∃ queue, o.get? link = some queue ∧
      queue.frames.length < queue.capacity ∧
        o' = o.insert link { queue with frames := queue.frames ++ [frame] } := by
  unfold push
  split
  next hnone => simp [hnone]
  next queue hq =>
    split
    next longer hpush =>
      obtain ⟨hspace, rfl⟩ := SendQueue.push_eq_ok_iff.1 hpush
      simp [hq, hspace, eq_comm]
    next why hpush =>
      obtain ⟨hfull, -⟩ := SendQueue.push_eq_error_iff.1 hpush
      simp [hq, Nat.not_lt.2 hfull]

/-- A frame that was accepted waits at the end of its queue, and no other queue has changed. -/
theorem waiting_of_push {o o' : Outbox} {link : LinkId} {frame : Frame}
    (h : o.push link frame = .ok o') (other : LinkId) :
    o'.waiting other = o.waiting other ++ if other = link then [frame] else [] := by
  obtain ⟨queue, hq, -, rfl⟩ := push_eq_ok_iff.1 h
  unfold waiting
  rw [SortedMap.get?_insert]
  by_cases ho : other = link
  · subst ho
    simp [hq]
  · simp [ho]

end Outbox

end RelayMesh
