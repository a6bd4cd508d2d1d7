import RelayMesh.Proofs.Routes.Learning
import RelayMesh.Proofs.Server.Harmless
import RelayMesh.Proofs.Server.Oblivious

namespace RelayMesh

/-- The frame is for servers. -/
def Frame.isControl (f : Frame) : Bool := !MessageType.isForClients f.type

namespace Outbox

/-- The queues without the frames for clients. -/
def stripped (o : Outbox) : Outbox :=
  o.mapValues fun queue => { queue with frames := queue.frames.filter Frame.isControl }

variable {o o' : Outbox} {link : LinkId} {f : Frame}

theorem stripped_insert (o : Outbox) (link : LinkId) (queue : SendQueue) :
    stripped (o.insert link queue) =
      o.stripped.insert link { queue with frames := queue.frames.filter Frame.isControl } := by
  refine SortedMap.ext_get? fun other => ?_
  simp only [stripped, SortedMap.get?_mapValues, SortedMap.get?_insert]
  split <;> rfl

theorem stripped_push (h : o.push link f = .ok o') (hf : f.isControl = false) :
    o'.stripped = o.stripped := by
  obtain ⟨queue, hq, -, rfl⟩ := push_eq_ok_iff.1 h
  refine SortedMap.ext_get? fun other => ?_
  simp only [stripped, SortedMap.get?_mapValues, SortedMap.get?_insert]
  split
  next he => simp [he, hq, hf]
  next => rfl

theorem stripped_pushEach (o : Outbox) (hf : f.isControl = false) (links : List LinkId) :
    (o.pushEach f links).1.stripped = o.stripped := by
  induction links generalizing o with
  | nil => rfl
  | cons link links ih =>
    rw [pushEach]
    split
    next o' hpush => exact (ih o').trans (stripped_push hpush hf)
    next => exact ih o

theorem drain_stripped (o : Outbox) (link : LinkId) : o.stripped.drain link =
    ((o.drain link).1.stripped, (o.drain link).2.filter Frame.isControl) := by
  have hget : o.stripped.get? link = (o.get? link).map fun queue =>
    { queue with frames := queue.frames.filter Frame.isControl } := SortedMap.get?_mapValues _ _ _
  unfold drain
  cases hq : o.get? link with
  | none => simp [hget, hq]
  | some queue => simp [hget, hq, stripped_insert]

theorem stripped_eq_self (h : ∀ link, o.waiting link = []) : o.stripped = o := by
  refine SortedMap.ext_get? fun link => ?_
  have hnone := h link
  unfold waiting at hnone
  rw [stripped, SortedMap.get?_mapValues]
  cases hq : o.get? link with
  | none => rfl
  | some queue =>
    rw [hq] at hnone
    obtain ⟨capacity, frames⟩ := queue
    simp_all

end Outbox

namespace Server

/-- The server without its record of chat lines, and without the frames for clients in its queues. -/
def stripped (s : Server) : Server :=
  { s with routes := s.routes.forget, outbox := s.outbox.stripped }

variable {s : Server} {type : MessageType} {msg : Message} {link : LinkId} {f : Frame}

theorem isControl_of_frame (ht : MessageType.isForClients type = true)
    (hf : s.frame type msg = .ok f) : f.isControl = false := by
  rw [Frame.isControl, Frame.type_of_ofMessage hf, ht]
  rfl

theorem stripped_flood (s : Server) (except : Option Id)
    (ht : MessageType.isForClients type = true) (msg : Message) :
    (s.flood except type msg).1.stripped = s.stripped := by
  unfold flood
  dsimp only
  split
  · rfl
  next f hf =>
    simp only [stripped, Outbox.stripped_pushEach _ (isControl_of_frame ht hf)]

theorem stripped_floodClients (s : Server) (except : Option Id)
    (ht : MessageType.isForClients type = true) (msg : Message) :
    (s.floodClients except type msg).1.stripped = s.stripped := by
  unfold floodClients
  split
  · rfl
  · split
    · split
      · rfl
      next f hf =>
        have hqueues := Outbox.stripped_pushEach s.outbox (isControl_of_frame ht hf)
          (eligible except msg s.routes.clients)
        dsimp only
        split
        · simp only [stripped, hqueues]
          rfl
        · simp only [stripped, hqueues]
    · rfl

theorem stripped_relayChat (s : Server) (ht : MessageType.isForClients type = true)
    (msg : Message) : (s.relayChat type msg).stripped = s.stripped :=
  (stripped_floodClients _ _ ht msg).trans (s.stripped_flood _ ht msg)

/-- The server once it has learned from the path of a frame that came over `link`. -/
def heeding (s : Server) (link : LinkId) (f : Frame) : Server :=
  if s.down then s
  else
    match s.routes.atLink link, f.message with
    | some (_, route), .ok msg => if route.isClient then s else s.learnRoutes msg route.link
    | _, _ => s

theorem heeding_forget (s : Server) (link : LinkId) (f : Frame) :
    s.forget.heeding link f = (s.heeding link f).forget := by
  by_cases hdown : s.down = true
  · simp [heeding, hdown]
  · simp only [heeding, down_forget, hdown, Bool.false_eq_true, if_false, routes_forget,
      Routes.atLink_forget, learnRoutes_forget]
    cases s.routes.atLink link with
    | none => rfl
    | some r =>
      cases f.message with
      | error why => rfl
      | ok msg => by_cases hc : r.2.isClient = true <;> simp [hc]

/-- Of a frame for clients a server only heeds the path, apart from passing it on. -/
theorem stripped_arrive (hooks : Interception) (s : Server) (link : LinkId)
    (hf : f.isControl = false) : (s.arrive hooks link f).1.stripped = (s.heeding link f).stripped ∧
      (s.arrive hooks link f).2 = none := by
  have ht : MessageType.isForClients f.type = true := by simpa [Frame.isControl] using hf
  by_cases hdown : s.down = true
  · simp [arrive, heeding, hdown]
  · simp only [arrive, heeding, hdown, Bool.false_eq_true, if_false, handleFrame]
    cases s.routes.atLink link with
    | none => exact ⟨rfl, rfl⟩
    | some r =>
      cases f.message with
      | error why => exact ⟨rfl, rfl⟩
      | ok msg =>
        by_cases hc : r.2.isClient = true
        · by_cases hk : msg.content.kind = .chat
          · simp [hc, hk, ht, stripped_relayChat]
          · simp [hc, hk]
        · simp [hc, dispatch, ht, stripped_relayChat]

/-- To learn routes takes no time. -/
theorem due_heeding (s : Server) (link : LinkId) (f : Frame) :
    (s.heeding link f).timers = s.timers ∧ (s.heeding link f).clock = s.clock := by
  unfold heeding
  split
  · exact ⟨rfl, rfl⟩
  · split
    · split
      · exact ⟨rfl, rfl⟩
      next msg _ _ _ =>
        obtain ⟨outbox, hlearned⟩ := s.exists_learnRoutes msg _
        rw [hlearned]
        exact ⟨rfl, rfl⟩
    · exact ⟨rfl, rfl⟩

end Server

namespace Station

/-- The station without its server's record of chat lines. -/
def forget (st : Station) : Station := { st with server := st.server.forget }

/-- The station without its server's record of chat lines, and without the frames for clients. -/
def stripped (st : Station) : Station := { st with server := st.server.stripped }

theorem named?_forget (st : Station) (label : String) :
    st.forget.named? label = st.named? label := rfl

theorem connect_forget (st : Station) (label : String) (peer : Option Id) (capacity : Nat)
    (held : Bool) : st.forget.connect label peer capacity held =
      ((st.connect label peer capacity held).1.forget,
        (st.connect label peer capacity held).2) := rfl

theorem obtain_forget (st : Station) (label : String) (capacity : Nat) (held : Bool) :
    st.forget.obtain label capacity held =
      ((st.obtain label capacity held).1.forget, (st.obtain label capacity held).2) := by
  unfold obtain
  rw [named?_forget]
  cases st.named? label <;> rfl

theorem lineTo?_forget (st : Station) (peer : Id) : st.forget.lineTo? peer = st.lineTo? peer := rfl

theorem forgetPeer_forget (st : Station) (peer : Id) :
    st.forget.forgetPeer peer = (st.forgetPeer peer).forget := by
  unfold forgetPeer
  rw [lineTo?_forget]
  cases st.lineTo? peer <;> rfl

theorem drainLines_stripped (s : Server) (lines : List Line) : drainLines s.stripped lines =
    ((drainLines s lines).1.stripped, (drainLines s lines).2.filter (·.2.isControl)) := by
  induction lines generalizing s with
  | nil => rfl
  | cons line lines ih =>
    by_cases hheld : line.held = true
    · simp only [drainLines, hheld, if_true, ih]
    · have hdrain : s.stripped.outbox.drain line.link =
          ((s.outbox.drain line.link).1.stripped,
            (s.outbox.drain line.link).2.filter Frame.isControl) :=
        Outbox.drain_stripped s.outbox line.link
      have hlater := ih { s with outbox := (s.outbox.drain line.link).1 }
      have hfirst (frames : List Frame) :
          ((frames.filter Frame.isControl).map (line, ·) : List (Line × Frame)) =
            (frames.map (line, ·)).filter (·.2.isControl) := by
        rw [List.filter_map]
        rfl
      simp only [drainLines, hheld, Bool.false_eq_true, if_false, hdrain, List.filter_append,
        hfirst]
      exact congrArg₂ (fun s l => (s, _ ++ l)) (congrArg Prod.fst hlater) (congrArg Prod.snd hlater)

theorem drain_stripped (st : Station) : st.stripped.drain =
    (st.drain.1.stripped, st.drain.2.filter (·.2.isControl)) := by
  have hlines := drainLines_stripped st.server st.lines
  simp only [drain]
  exact congrArg (fun r => (({ st with server := r.1 } : Station), r.2)) hlines

theorem stripped_eq_forget {st : Station} (h : ∀ link, st.server.outbox.waiting link = []) :
    st.stripped = st.forget := by
  simp only [stripped, forget, Server.stripped, Server.forget, Outbox.stripped_eq_self h]

/-- There is nothing to empty in empty queues. -/
theorem drain_eq_self {st : Station} (h : ∀ link, st.server.outbox.waiting link = []) :
    st.drain = (st, []) := by
  have houtbox (link : LinkId) : st.server.outbox.drain link = (st.server.outbox, []) := by
    have hnone := h link
    unfold Outbox.waiting at hnone
    unfold Outbox.drain
    cases hq : st.server.outbox.get? link with
    | none => rfl
    | some queue =>
      rw [hq] at hnone
      obtain ⟨capacity, frames⟩ := queue
      obtain rfl : frames = [] := hnone
      refine Prod.ext (SortedMap.ext_get? fun other => ?_) rfl
      rw [SortedMap.get?_insert]
      split
      next he => rw [he, hq]
      next => rfl
  have hlines (lines : List Line) : drainLines st.server lines = (st.server, []) := by
    induction lines with
    | nil => rfl
    | cons line lines ih =>
      unfold drainLines
      split
      · exact ih
      · simp [houtbox, ih]
  simp only [drain, hlines]

end Station

end RelayMesh
