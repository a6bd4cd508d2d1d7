import RelayMesh.Proofs.Mesh.Queues
import RelayMesh.Proofs.Server.Harmless

namespace RelayMesh

namespace Station

/-- Frames wait only in queues that are held back. -/
def Drained (st : Station) : Prop :=
  ∀ line ∈ st.lines, line.held = false → st.server.outbox.waiting line.link = []

/-- Nothing is left to do: no timer is due, and the queues are empty. -/
structure Settled (st : Station) : Prop where
  timers : ∀ timer ∈ st.server.timers, st.server.clock < timer.due
  drained : st.Drained

/-- The server is undisturbed, and its connections are as before. -/
structure Undisturbed (st st' : Station) : Prop where
  server : st.server.Undisturbed st'.server
  lines : st'.lines = st.lines

theorem undisturbed_refl (st : Station) : st.Undisturbed st := ⟨st.server.undisturbed_refl, rfl⟩

theorem drained_drain (st : Station) : st.drain.1.Drained := by
  obtain ⟨outbox, hdrain, hw⟩ := st.exists_drain
  rw [hdrain]
  intro line hl hheld
  rw [hw, if_pos ⟨line, hl, hheld, rfl⟩]

theorem held_of_mem_drainLines {s : Server} {lines : List Line} {line : Line} {f : Frame}
    (h : (line, f) ∈ (drainLines s lines).2) : line.held = false := by
  induction lines generalizing s with
  | nil => simp [drainLines] at h
  | cons first lines ih =>
    rw [drainLines] at h
    split at h
    · exact ih h
    next hheld =>
      rcases List.mem_append.1 h with hfirst | hlater
      · obtain ⟨_, -, he⟩ := List.mem_map.1 hfirst
        cases he
        simpa using hheld
      · exact ih hlater

end Station

namespace Mesh

inductive Event
  | move (mv : Move)
  /-- A message that was kept back is given to its server. -/
  | give (w : Withheld)

variable {m m' m'' : Mesh} {id : Id} {st st' : Station} {w : Withheld}

/-- An event, before what is written in it goes on its way. -/
def occur (m : Mesh) : Event → Mesh
  | .move mv => m.effect mv
  | .give w =>
    { m with waiting := m.waiting.erase w }.updateServer w.interceptor.owner (·.release w)

def after (m : Mesh) (e : Event) : Mesh := (m.occur e).collect.1

/-- What may come of an overlay, whatever happens to it. -/
inductive Later (m : Mesh) : Mesh → Prop
  | now : m.Later m
  | move {m' : Mesh} (h : m.Later m') (mv : Move) : m.Later (m'.after (.move mv))
  | give {m' : Mesh} {w : Withheld} (h : m.Later m') (hw : w ∈ m'.waiting) :
      m.Later (m'.after (.give w))

/-- A run consists of such events. -/
theorem Later.play (h : m.Later m') (moves : List Move) : m.Later (m'.play moves) := by
  have giveReady (n : Nat) : ∀ m', m.Later m' → m.Later (m'.giveReady n).1 := by
    induction n with
    | zero => exact fun m' h => h
    | succ n ih =>
      intro m' h
      rw [Mesh.giveReady]
      split
      · exact h
      next w hw =>
        have hgiven := h.give (List.mem_of_find?_eq_some hw)
        simp only [after, occur, ← eraseP_eq_erase hw] at hgiven
        exact ih _ hgiven
  induction moves generalizing m' with
  | nil => exact h
  | cons mv moves ih => exact ih (giveReady _ _ (h.move mv))

/-- No server has anything left to do. -/
def Settled (m : Mesh) : Prop := ∀ id st, m.station? id = some st → st.Settled

/-- All servers are undisturbed. -/
def Undisturbed (m m' : Mesh) : Prop :=
  ∀ id st', m'.station? id = some st' → ∃ st, m.station? id = some st ∧ st.Undisturbed st'

theorem drained_collectAt {first : Id}
    (h : id ≠ first → ∀ st, m.station? id = some st → st.Drained)
    (hs' : (m.collectAt first).1.station? id = some st') : st'.Drained := by
  cases hs : m.station? first with
  | none =>
    rw [collectAt_none hs] at hs'
    refine h (fun he => ?_) st' hs'
    rw [he, hs] at hs'
    cases hs'
  | some st =>
    rw [station?_collectAt hs] at hs'
    split at hs'
    · cases hs'
      exact st.drained_drain
    next hne => exact h hne st' hs'

theorem drained_collectEach {ids : List Id}
    (h : id ∈ ids ∨ ∀ st, m.station? id = some st → st.Drained)
    (hs' : (m.collectEach ids).1.station? id = some st') : st'.Drained := by
  induction ids generalizing m with
  | nil => exact h.resolve_left List.not_mem_nil st' hs'
  | cons first ids ih =>
    by_cases hmem : id ∈ ids
    · exact ih (.inl hmem) hs'
    · refine ih (.inr fun st hst => drained_collectAt (fun hne => h.resolve_left fun hid => ?_) hst) hs'
      exact (List.mem_cons.1 hid).elim hne hmem

theorem mem_keys_of_station? (hs : m.station? id = some st) : id ∈ m.stations.keys :=
  List.mem_map.2 ⟨(id, st), m.stations.mem_toList_iff.2 hs, rfl⟩

/-- After every event all servers are settled. -/
theorem settled_collect (m : Mesh) : m.collect.1.Settled := by
  intro id st' hs'
  have hmem : id ∈ m.expire.stations.keys := by
    obtain ⟨outbox, hsame⟩ := m.expire.station?_collectEach m.expire.stations.keys id
    obtain ⟨st, hs, -⟩ := Option.map_eq_some_iff.1 (hsame.symm.trans hs')
    exact mem_keys_of_station? hs
  refine ⟨?_, drained_collectEach (.inl hmem) hs'⟩
  obtain ⟨outbox, hsame⟩ := m.expire.station?_collectEach m.expire.stations.keys id
  obtain ⟨st, hs, rfl⟩ := Option.map_eq_some_iff.1 (hsame.symm.trans hs')
  obtain ⟨old, -, rfl⟩ := Option.map_eq_some_iff.1 ((m.station?_updateAll _ id).symm.trans hs)
  exact fun timer ht => Server.due_of_mem_expire ht

theorem Later.settled (h : m.Later m') (hm : m.Settled) : m'.Settled := by
  cases h with
  | now => exact hm
  | move => exact settled_collect _
  | give => exact settled_collect _

/-- What goes on the wire has waited in a queue that is not held back. -/
theorem wire_collectEach (m : Mesh) (ids : List Id) :
    ∃ sent, (m.collectEach ids).1.wire = m.wire ++ sent ∧ ∀ t ∈ sent, ∃ st,
      m.station? t.source = some st ∧ ∃ line ∈ st.lines, line.held = false ∧
        t.frame ∈ st.server.outbox.waiting line.link := by
  induction ids generalizing m with
  | nil => exact ⟨[], (List.append_nil _).symm, nofun⟩
  | cons first ids ih =>
    obtain ⟨later, hwire, hlater⟩ := ih (m.collectAt first).1
    cases hs : m.station? first with
    | none =>
      rw [collectAt_none hs] at hwire hlater
      refine ⟨later, ?_, hlater⟩
      rw [collectEach]
      simp only [collectAt_none hs]
      exact hwire
    | some st =>
      refine ⟨(st.drain.2.filterMap fun b =>
        b.1.peer.map fun peer => (⟨first, peer, b.2⟩ : Transit)) ++ later, ?_, fun t ht => ?_⟩
      · rw [collectEach]
        show ((m.collectAt first).1.collectEach ids).1.wire = _
        rw [hwire, collectAt_eq hs, List.append_assoc]
      · rcases List.mem_append.1 ht with hnow | ht
        · obtain ⟨⟨line, f⟩, hmem, hpeer⟩ := List.mem_filterMap.1 hnow
          obtain ⟨peer, -, rfl⟩ := Option.map_eq_some_iff.1 hpeer
          obtain ⟨hl, hf⟩ := Station.waiting_of_mem_drainLines hmem
          exact ⟨st, hs, line, hl, Station.held_of_mem_drainLines hmem, hf⟩
        · obtain ⟨st', hs', line, hl, hheld, hf⟩ := hlater t ht
          rw [station?_collectAt hs] at hs'
          split at hs'
          next he =>
            have hnone := st.drained_drain line (Option.some.inj hs' ▸ hl) hheld
            rw [← Option.some.inj hs', hnone] at hf
            cases hf
          next => exact ⟨st', hs', line, hl, hheld, hf⟩

theorem undisturbed_of_stations (h : m'.stations = m.stations) : m.Undisturbed m' := by
  intro id st hs
  unfold station? at hs ⊢
  exact ⟨st, h ▸ hs, st.undisturbed_refl⟩

/-- One server is undisturbed, and nothing is done at the others. -/
theorem undisturbed_set (hs : m.station? id = some st) (h : st.Undisturbed st')
    (hm : m'.stations = (m.set id st').stations) : m.Undisturbed m' := by
  intro other new hnew
  have hnew : (m.set id st').station? other = some new := by
    unfold station? at hnew ⊢
    rwa [← hm]
  rw [station?_set] at hnew
  split at hnew
  next he => exact ⟨st, he ▸ hs, Option.some.inj hnew ▸ h⟩
  next => exact ⟨new, hnew, new.undisturbed_refl⟩

/-- If servers have had nothing to do and are undisturbed, then only queues are emptied, and all that
goes on its way is harmless. -/
theorem Settled.collect_of_undisturbed (h : m.Settled) (hu : m.Undisturbed m') :
    (∀ id, ∃ outbox, m'.collect.1.station? id =
      (m'.station? id).map fun st => { st with server := { st.server with outbox } }) ∧
      ∃ sent, m'.collect.1.wire = m'.wire ++ sent ∧ ∀ t ∈ sent, t.frame.Harmless := by
  have hexpire : m'.expire = m' := updateAll_eq fun id st' hs' => by
    obtain ⟨st, hs, hst⟩ := hu id st' hs'
    refine Server.expire_of_not_due fun timer ht => ?_
    rw [hst.server.timers] at ht
    rw [hst.server.clock]
    exact (h id st hs).timers timer ht
  unfold collect
  rw [hexpire]
  refine ⟨fun id => m'.station?_collectEach _ id, ?_⟩
  obtain ⟨sent, hwire, hsent⟩ := m'.wire_collectEach m'.stations.keys
  refine ⟨sent, hwire, fun t ht => ?_⟩
  obtain ⟨st', hs', line, hl, hheld, hf⟩ := hsent t ht
  obtain ⟨st, hs, hst⟩ := hu _ st' hs'
  obtain ⟨frames, hq, hharmless⟩ := hst.server.outbox.queues line.link
  rw [hq, (h _ st hs).drained line (hst.lines ▸ hl) hheld, List.nil_append] at hf
  exact hharmless t.frame hf

end Mesh

end RelayMesh
