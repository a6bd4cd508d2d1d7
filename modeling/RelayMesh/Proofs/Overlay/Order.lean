import RelayMesh.Proofs.Overlay.Run

namespace RelayMesh

namespace Overlay

variable {σ ι : Type} {s s' : Overlay σ} {new : List Packet} {p q : Packet}

/-- Of two packets on one link, `p` was sent first. -/
def Precedes (s : Overlay σ) (p q : Packet) : Prop := [p, q].Sublist s.sent

/-- The turn has kept the order of packets on each link. -/
def KeepsOrder (s : Overlay σ) (new : List Packet) (s' : Overlay σ) : Prop :=
  ∀ p q, SameLink p q → (Precedes s' p q ↔ [p, q].Sublist (s.sent ++ new))

theorem sublist_of_append {l r : List Packet} (h : [p, q].Sublist (l ++ r)) (hq : q ∉ r) :
    [p, q].Sublist l := by
  obtain ⟨l₁, l₂, he, h₁, h₂⟩ := List.sublist_append_iff.1 h
  have hnil : l₂ = [] := by
    rcases List.eq_nil_or_concat l₂ with hnil | ⟨l', a, rfl⟩
    · exact hnil
    · have ha : q = a := by
        have hlast := congrArg List.getLast? he
        simpa [← List.append_assoc] using hlast
      exact absurd (h₂.subset (by simp)) (ha ▸ hq)
  rw [he, hnil, List.append_nil]
  exact h₁

/-- An arrival in order leaves the order on each link as it was. -/
theorem filter_sent_arrived {front back : List Packet} (hw : s.wire = front ++ p :: back)
    (hin : s.InOrder (ι := ι) (.deliver front.length)) (q : Packet) :
    (s.arrived front p back).sent.filter (SameLink · q) = s.sent.filter (SameLink · q) := by
  have hfront (h : SameLink p q) : front.filter (SameLink · q) = [] := by
    refine List.filter_eq_nil_iff.2 fun r hr hs => ?_
    have hs := of_decide_eq_true hs
    have hlink : SameLink r p := ⟨hs.1.trans h.1.symm, hs.2.trans h.2.symm⟩
    exact hin p (by simp [hw]) r (by simpa [hw] using hr) hlink
  simp only [sent, arrived, hw, List.filter_append, List.filter_cons, List.filter_nil]
  split
  next h => simp [hfront (of_decide_eq_true h)]
  next => simp

theorem sublist_filter_iff (h : SameLink p q) (l : List Packet) :
    [p, q].Sublist (l.filter (SameLink · q)) ↔ [p, q].Sublist l := by
  refine ⟨fun hl => hl.trans List.filter_sublist, fun hl => ?_⟩
  have hq : SameLink q q := ⟨rfl, rfl⟩
  simpa [h, hq] using hl.filter (SameLink · q)

theorem keepsOrder_command (T : Topology) (s : Overlay σ) (a : Id) (step : σ × List Outgoing) :
    KeepsOrder s (step.2.flatMap (T.packets a)) (s.act T a step) := by
  intro p q _
  rw [Precedes, sent_act]

theorem keepsOrder_arrival (T : Topology) {front back : List Packet}
    (hw : s.wire = front ++ p :: back) (hin : s.InOrder (ι := ι) (.deliver front.length)) (a : Id)
    (step : σ × List Outgoing) :
    KeepsOrder s (step.2.flatMap (T.packets a)) ((s.arrived front p back).act T a step) := by
  intro q r hl
  rw [Precedes, sent_act, ← sublist_filter_iff hl, List.filter_append,
    filter_sent_arrived hw hin, ← List.filter_append, sublist_filter_iff hl]

namespace KeepsOrder

theorem later (h : KeepsOrder s new s') (hl : SameLink p q) (hp : Precedes s p q) :
    Precedes s' p q := (h p q hl).2 (List.Sublist.trans hp (List.sublist_append_left _ _))

/-- What is sent now comes after all that was sent before. -/
theorem last (h : KeepsOrder s new s') (hl : SameLink p q) (hp : p ∈ s.sent) (hq : q ∈ new) :
    Precedes s' p q := by
  have hpair : ([p] ++ [q]).Sublist (s.sent ++ new) :=
    (List.singleton_sublist.2 hp).append (List.singleton_sublist.2 hq)
  exact (h p q hl).2 hpair

/-- Nothing new gets ahead of what was sent before. -/
theorem earlier (h : KeepsOrder s new s') (hl : SameLink p q) (hq : q ∉ new)
    (hp : Precedes s' p q) : Precedes s p q := sublist_of_append ((h p q hl).1 hp) hq

end KeepsOrder

/-- A packet has arrived if a later one has. -/
theorem delivered_of_precedes (hs : s.sent.Nodup) (hp : Precedes s p q) (hq : q ∈ s.delivered) :
    p ∈ s.delivered := by
  have hwire : q ∉ s.wire := fun hw => (List.nodup_append.1 hs).2.2 q hq q hw rfl
  exact (sublist_of_append hp hwire).subset (by simp)

end Overlay

end RelayMesh
