import RelayMesh.Proofs.Mesh.Queues

namespace RelayMesh

namespace Outbox

variable {P : LinkId → Frame → Prop} {o o' : Outbox} {link : LinkId} {f : Frame}

/-- The connection has a queue that takes another frame. -/
def HasSpace (o : Outbox) (link : LinkId) : Prop :=
  ((o.get? link).any fun queue => queue.frames.length < queue.capacity) = true

instance (o : Outbox) (link : LinkId) : Decidable (o.HasSpace link) :=
  inferInstanceAs (Decidable (_ = true))

theorem hasSpace_iff : o.HasSpace link ↔
    ∃ queue, o.get? link = some queue ∧ queue.frames.length < queue.capacity := by
  unfold HasSpace
  cases o.get? link <;> simp

/-- A queue that takes another frame now took one before. -/
theorem Grows.hasSpace (h : Grows P o o') (hs : o'.HasSpace link) : o.HasSpace link := by
  obtain ⟨queue', hget', hlt⟩ := hasSpace_iff.1 hs
  have hcap := h.capacities link
  rw [hget'] at hcap
  obtain ⟨queue, hget, hsame⟩ := Option.map_eq_some_iff.1 hcap.symm
  obtain ⟨frames, hq, -⟩ := h.queues link
  simp only [waiting, hget, hget'] at hq
  dsimp only at hsame
  refine hasSpace_iff.2 ⟨queue, hget, ?_⟩
  rw [hsame]
  rw [hq, List.length_append] at hlt
  omega

theorem Grows.mem_waiting (h : Grows P o o') (hf : f ∈ o.waiting link) : f ∈ o'.waiting link := by
  obtain ⟨frames, hq, -⟩ := h.queues link
  rw [hq]
  exact List.mem_append_left _ hf

theorem exists_push (h : o.HasSpace link) (f : Frame) : ∃ o', o.push link f = .ok o' := by
  obtain ⟨queue, hget, hlt⟩ := hasSpace_iff.1 h
  exact ⟨_, push_eq_ok_iff.2 ⟨queue, hget, hlt, rfl⟩⟩

/-- A frame for several connections waits on each of them that has space for another one. -/
theorem mem_waiting_pushEach {links : List LinkId} (hl : link ∈ links)
    (hs : (o.pushEach f links).1.HasSpace link) : f ∈ (o.pushEach f links).1.waiting link := by
  induction links generalizing o with
  | nil => simp at hl
  | cons first links ih =>
    rw [pushEach] at hs ⊢
    cases hpush : o.push first f with
    | ok o' =>
      simp only [hpush] at hs ⊢
      rcases List.mem_cons.1 hl with rfl | hl
      · have hgrows : Grows (fun _ _ => True) o' (o'.pushEach f links).1 :=
          grows_pushEach o' fun _ _ => trivial
        refine hgrows.mem_waiting ?_
        rw [waiting_of_push hpush, if_pos rfl]
        exact List.mem_append_right _ List.mem_cons_self
      · exact ih hl hs
    | error why =>
      simp only [hpush] at hs ⊢
      rcases List.mem_cons.1 hl with rfl | hl
      · have hgrows : Grows (fun _ _ => True) o (o.pushEach f links).1 :=
          grows_pushEach o fun _ _ => trivial
        obtain ⟨o', ho'⟩ := exists_push (hgrows.hasSpace hs) f
        rw [hpush] at ho'
        cases ho'
      · exact ih hl hs

end Outbox

namespace Server

variable {s : Server} {msg : Message} {dest : Id} {type : MessageType} {route : Route} {f : Frame}

/-- A queue that takes another frame after a send took one before. -/
theorem exists_push_of_carryOut {link : LinkId}
    (hs : (s.carryOut (.toServer dest type msg)).outbox.HasSpace link) (f : Frame) :
    ∃ outbox, s.outbox.push link f = .ok outbox := by
  have hsends := sends_carryOut s (o := .toServer dest type msg) (msg.stems_self)
  exact Outbox.exists_push (hsends.outbox.hasSpace hs) f

/-- A message for one server waits on its route afterwards, if there is space for it. -/
theorem mem_waiting_carryOut (hid : dest ≠ s.identity) (hroute : s.routes.get? dest = some route)
    (hf : s.frame type (msg.appendToPath s.identity) = .ok f)
    (hs : (s.carryOut (.toServer dest type msg)).outbox.HasSpace route.link) :
    f ∈ (s.carryOut (.toServer dest type msg)).outbox.waiting route.link := by
  obtain ⟨outbox, hpush⟩ := exists_push_of_carryOut hs f
  have hsent : s.sendTo dest type msg = .ok { s with outbox } :=
    sendTo_eq_ok_iff.2 ⟨hid, route, f, outbox, hroute, hf, hpush, rfl⟩
  rw [carryOut, hsent]
  show f ∈ outbox.waiting route.link
  rw [Outbox.waiting_of_push hpush, if_pos rfl]
  exact List.mem_append_right _ List.mem_cons_self

/-- A message for all neighbours waits for each that it has not visited, if there is space for it. -/
theorem mem_waiting_flood {b : Id × Route} (hb : b ∈ s.routes.neighbours)
    (hv : b.1 ∉ (msg.appendToPath s.identity).path)
    (hf : s.frame type (msg.appendToPath s.identity) = .ok f)
    (hs : (s.flood none type msg).1.outbox.HasSpace b.2.link) :
    f ∈ (s.flood none type msg).1.outbox.waiting b.2.link := by
  simp only [flood, hf] at hs ⊢
  refine Outbox.mem_waiting_pushEach (List.mem_map_of_mem (List.mem_filter.2 ⟨hb, ?_⟩)) hs
  simp [Message.hasVisited, hv]

end Server

namespace Mesh

/-- Every connection to a server has space for another frame. -/
def Roomy (m : Mesh) : Prop :=
  ∀ b ∈ m.stations.toList, ∀ line ∈ b.2.lines, line.peer ≠ none →
    b.2.server.outbox.HasSpace line.link

instance (m : Mesh) : Decidable m.Roomy :=
  inferInstanceAs (Decidable (∀ b ∈ m.stations.toList, ∀ line ∈ b.2.lines, line.peer ≠ none →
    b.2.server.outbox.HasSpace line.link))

variable {m : Mesh} {id : Id} {st : Station}

theorem Roomy.hasSpace (h : m.Roomy) (hs : m.station? id = some st) {line : Line}
    (hl : line ∈ st.lines) (hpeer : line.peer ≠ none) :
    st.server.outbox.HasSpace line.link :=
  h (id, st) (m.stations.mem_toList_iff.2 hs) line hl hpeer

end Mesh

end RelayMesh
