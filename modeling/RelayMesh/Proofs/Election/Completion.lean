import RelayMesh.Proofs.Election.Traffic

namespace RelayMesh

namespace Election

/-- Server `w` has taken part in the wave of `x`. -/
def Joined (s : Overlay Election) (x w : Id) : Prop := ∃ v, token w v x ∈ s.sent

/-- All neighbours of `w` have told it of the wave of `x`. -/
def Answered (T : Topology) (s : Overlay Election) (x w : Id) : Prop :=
  ∀ v, T.Linked w v → token v w x ∈ s.delivered

variable {T : Topology} {s s' : Overlay Election} {w u v x : Id} {heard : Option Packet}
  {new : List Packet}

theorem Joined.moved (m : Moved T s w heard new s') {a : Id} (h : Joined s x a) :
    Joined s' x a := h.imp fun _ hv => m.mem_sent.2 (.inl hv)

theorem Joined.of_delivered (h : token u v x ∈ s.delivered) : Joined s x u :=
  ⟨v, mem_sent_of_mem_delivered h⟩

namespace Sane

theorem joined_degree (h : Sane T s) (hj : Joined s x w) : 0 < T.degree w := by
  obtain ⟨v, hv⟩ := hj
  exact (h.degree_pos hv).1

theorem joined_isOutbid (h : Sane T s) (hj : Joined s x w) : (s.nodes w).isOutbid x = true := by
  have hd := h.joined_degree hj
  obtain ⟨v, hv⟩ := hj
  exact ((h.waves w hd).part x).bound v hv

/-- A server has joined the wave that it takes part in. -/
theorem joined_candidate (h : Sane T s) (hd : 0 < T.degree w)
    (hc : (s.nodes w).candidate = some x) : Joined s x w := ((h.waves w hd).current x hc).joined

theorem joined_root (h : Sane T s) (hj : Joined s x w) : Joined s x x := by
  obtain ⟨v, hv⟩ := hj
  exact h.root w v x hv

/-- A server that has joined has told all neighbours but the one that it has the wave from. -/
theorem token_of_joined (h : Sane T s) (hj : Joined s x w) (hl : T.Linked w v)
    (hup : x ≠ w → upstream (inbox s w) x ≠ some v) : token w v x ∈ s.sent := by
  have hd := h.joined_degree hj
  obtain ⟨v', hv'⟩ := hj
  refine ((h.waves w hd).part x).floods v' hv' v hl ?_
  by_cases hx : x = w
  · exact .inl hx
  · exact .inr (hup hx)

/-- Unless it started the wave, a server has it from a neighbour, which has joined before. -/
theorem exists_upstream (h : Sane T s) (hj : Joined s x w) (hx : x ≠ w) :
    ∃ u, upstream (inbox s w) x = some u ∧ T.Linked u w ∧ token u w x ∈ s.delivered ∧
      rank s x u < rank s x w := by
  have hd := h.joined_degree hj
  obtain ⟨v, hv⟩ := hj
  obtain ⟨u, hu⟩ := Option.isSome_iff_exists.1 (((h.waves w hd).part x).source v hv hx)
  have hmem := token_mem_inbox.1 ((h.proper w).mem_of_upstream hu)
  exact ⟨u, hu, h.linked _ (mem_sent_of_mem_delivered hmem), hmem, h.climbs x w u (Ne.symm hx) hu⟩

/-- Answers come from the leaves up, so that all servers of a complete wave have had all theirs. -/
theorem answered_of_joined (h : Sane T s) (hroot : Answered T s x x) (hj : Joined s x w) :
    Answered T s x w := by
  induction hr : rank s x w using Nat.strongRecOn generalizing w with
  | ind r ih =>
    subst hr
    by_cases hx : x = w
    · exact hx ▸ hroot
    · obtain ⟨u, hu, hl, htold, hrank⟩ := h.exists_upstream hj hx
      have hback := ih _ hrank (.of_delivered htold) rfl w hl
      have hd := h.joined_degree hj
      intro v hlv
      exact token_mem_inbox.1
        (((h.waves w hd).part x).echo u (mem_sent_of_mem_delivered hback) hx hu v hlv)

/-- An announced wave has been joined by everybody, and everybody has had all answers. -/
theorem complete (h : Sane T s) (hT : T.Connected) (ha : announcement x v x ∈ s.sent) :
    ∀ w ∈ T.servers, Joined s x w ∧ Answered T s x w := by
  have hl := h.linked _ ha
  have hroot : Answered T s x x := fun u hu =>
    token_mem_inbox.1 ((h.waves x (Topology.degree_pos hl)).announced v ha u hu)
  have hstart : Joined s x x := h.joined_root (.of_delivered (hroot v hl))
  have hall := hT.spread (P := Joined s x) (fun u v hl hj =>
    .of_delivered (h.answered_of_joined hroot hj v hl)) hl.source_mem hstart
  exact fun w hw => ⟨hall w hw, h.answered_of_joined hroot (hall w hw)⟩

end Sane

end Election

end RelayMesh
