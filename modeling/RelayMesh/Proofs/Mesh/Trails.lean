import RelayMesh.Proofs.Mesh.Turns

namespace RelayMesh

namespace Mesh

variable {m m' : Mesh} {a b d : Id} {path : List Id} {k : Nat}

/-- The server `d` is `k` links away from `a`, which knows it to be that near unless it is `a`. -/
structure Way (m : Mesh) (a d : Id) (k : Nat) : Prop where
  walk : ∃ w : m.graph.Walk a d, w.length = k
  knows : d = a ∨ m.Knows a d k

structure Trail (m : Mesh) (a : Id) (path : List Id) : Prop where
  last : path.getLast? = some a
  ways : ∀ i d, path.reverse[i]? = some d → m.Way a d i
  count : ∀ d, path.count d ≤ 2

theorem Way.mono (h : m.Way a d k) (he : m.Extends m') : m'.Way a d k := by
  obtain ⟨⟨w, hw⟩, hk⟩ := h
  exact ⟨⟨w.mapLe he.graph, by rw [SimpleGraph.Walk.length_map, hw]⟩, hk.imp_right (he.knows a d k)⟩

theorem Trail.mono (h : m.Trail a path) (he : m.Extends m') : m'.Trail a path :=
  ⟨h.last, fun i d hd => (h.ways i d hd).mono he, h.count⟩

/-- A server itself is no link away. -/
theorem way_self (m : Mesh) (a : Id) : m.Way a a 0 := ⟨⟨.nil, rfl⟩, .inl rfl⟩

/-- A message that starts at a server has left a trail there. -/
theorem trail_start (m : Mesh) (a : Id) : m.Trail a [a] := by
  refine ⟨rfl, fun i d hd => ?_, fun d => ?_⟩
  · cases i with
    | zero =>
      obtain rfl : a = d := by simpa using hd
      exact m.way_self a
    | succ i => simp at hd
  · exact Nat.le_trans List.count_le_length (Nat.le_succ 1)

/-- A trail goes on to a neighbour that has learned from it and stands on it once at most. -/
theorem Trail.extend (h : m.Trail a path) (hab : m.graph.Adj b a) (hroom : path.count b < 2)
    (hknows : ∀ i d, path.reverse[i]? = some d → d ≠ b → m.Knows b d (i + 1)) :
    m.Trail b (path ++ [b]) := by
  refine ⟨by simp, fun i d hd => ?_, fun d => ?_⟩
  · rw [List.reverse_append, List.reverse_singleton, List.singleton_append] at hd
    cases i with
    | zero =>
      obtain rfl : b = d := by simpa using hd
      exact m.way_self b
    | succ i =>
      rw [List.getElem?_cons_succ] at hd
      obtain ⟨w, hw⟩ := (h.ways i d hd).walk
      refine ⟨⟨.cons hab w, by rw [SimpleGraph.Walk.length_cons, hw]⟩, ?_⟩
      by_cases hdb : d = b
      · exact .inl hdb
      · exact .inr (hknows i d hd hdb)
  · have := h.count d
    rw [List.count_append, List.count_singleton]
    by_cases hdb : b = d
    · subst hdb
      simp only [beq_self_eq_true, if_true]
      omega
    · simp only [beq_iff_eq, hdb, if_false]
      omega

/-- The frame carries a message with the trail that its sender has left, which is linked to its
target. -/
def Traced (m : Mesh) (t : Transit) : Prop :=
  ∃ msg, t.frame.Carries msg ∧ m.graph.Adj t.source t.target ∧ m.Trail t.source msg.path

theorem Traced.mono {t : Transit} (h : m.Traced t) (he : m.Extends m') : m'.Traced t := by
  obtain ⟨msg, hc, hadj, htrail⟩ := h
  exact ⟨msg, hc, he.graph hadj, htrail.mono he⟩

/-- The server `b` may send the message on: with it the path is a trail, and there is room for it. -/
structure Ready (m : Mesh) (b : Id) (msg : Message) : Prop where
  trail : m.Trail b (msg.path ++ [b])
  room : msg.path.count b < msg.content.visitLimit

theorem Ready.mono {msg : Message} (h : m.Ready b msg) (he : m.Extends m') : m'.Ready b msg :=
  ⟨h.trail.mono he, h.room⟩

theorem visitLimit_le (c : Content) : c.visitLimit ≤ 2 := by
  cases c <;> simp [Content.visitLimit]

theorem visitLimit_pos (c : Content) : 0 < c.visitLimit := by
  cases c <;> simp [Content.visitLimit]

/-- Whatever a server sends while it handles a message that it may send on leaves a trail. -/
theorem trail_of_stems {came : Option Message} {msg : Message} (hm : msg.Stems came)
    (hr : ∀ msg ∈ came, m.Ready b msg) : m.Trail b (msg.appendToPath b).path := by
  have hroom : msg.path.count b < msg.content.visitLimit ∧ m.Trail b (msg.path ++ [b]) := by
    rcases hm with hnew | ⟨old, hold, hpath, hkind⟩
    · rw [hnew]
      exact ⟨visitLimit_pos _, m.trail_start b⟩
    · have h := hr old hold
      rw [hpath, Message.visitLimit_of_kind hkind]
      exact ⟨h.room, h.trail⟩
  unfold Message.appendToPath
  rw [if_pos hroom.1]
  exact hroom.2

end Mesh

end RelayMesh
