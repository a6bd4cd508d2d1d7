import RelayMesh.Proofs.Election.Wave

namespace RelayMesh

namespace Election

def isAnnouncement (p : Packet) : Bool := p.msg.content.kind = .electionLeader

@[simp] theorem isAnnouncement_token (u v x : Id) : isAnnouncement (token u v x) = false := by
  simp [isAnnouncement, Content.kind]

@[simp] theorem isAnnouncement_announcement (u v z : Id) :
    isAnnouncement (announcement u v z) = true := by simp [isAnnouncement, Content.kind]

/-- What server `w` has heard of winners, and what it makes of it. -/
structure Spread (T : Topology) (w : Id) (e : Election) (inbox sent : List Packet) : Prop where
  count : e.leaderEchoes = inbox.countP isAnnouncement
  winner : e.winner ≠ none → e.leaderEchoes ≠ 0
  heard : e.leaderEchoes ≠ 0 → ∃ u z, announcement u w z ∈ inbox ∧ e.winner = some z
  relays : ∀ v z, announcement w v z ∈ sent → z ≠ w → e.leaderEchoes ≠ 0
  passed : e.leaderEchoes ≠ 0 → ∃ z, ∀ v, T.Linked w v → announcement w v z ∈ sent
  verdict : T.degree w ≤ e.leaderEchoes → ∃ u z, announcement u w z ∈ inbox ∧
    e.status = if z = w then .leader else .nonLeader
  leader : e.status = .leader → T.degree w ≤ e.leaderEchoes

variable {T : Topology} {w u z : Id} {e e' : Election} {inbox sent sent' new : List Packet}

theorem spread_start (hd : 0 < T.degree w) : Spread T w { own := w } [] [] where
  count := rfl
  winner h := absurd rfl h
  heard h := absurd rfl h
  relays := by simp
  passed h := absurd rfl h
  verdict h := absurd h (Nat.not_le.2 hd)
  leader h := by simp at h

theorem Spread.mem_sent_congr (h : Spread T w e inbox sent)
    (hs : ∀ p, p.source = w → (p ∈ sent' ↔ p ∈ sent)) : Spread T w e inbox sent' := by
  have ha (v z : Id) : announcement w v z ∈ sent' ↔ announcement w v z ∈ sent := hs _ rfl
  exact { h with
    relays := fun v z hv => h.relays v z ((ha v z).1 hv)
    passed := fun hn => (h.passed hn).imp fun z hz v hl => (ha v z).2 (hz v hl) }

theorem Spread.leaderEchoes_ne_zero (h : Spread T w e inbox sent)
    (hin : announcement u w z ∈ inbox) : e.leaderEchoes ≠ 0 := by
  rw [h.count]
  exact Nat.ne_of_gt (List.countP_pos_iff.2 ⟨_, hin, by simp⟩)

/-- What happens in a wave tells nothing of other winners. -/
theorem Spread.wave (h : Spread T w e inbox sent) {heard : List Packet}
    (he : e'.leaderEchoes = e.leaderEchoes ∧ e'.winner = e.winner ∧ e'.status = e.status)
    (hh : ∀ p ∈ heard, isAnnouncement p = false)
    (hn : ∀ v z, announcement w v z ∈ new → z = w) :
    Spread T w e' (inbox ++ heard) (sent ++ new) := by
  obtain ⟨hle, hw, hs⟩ := he
  have hzero : heard.countP isAnnouncement = 0 :=
    List.countP_eq_zero.2 fun p hp => by simp [hh p hp]
  constructor
  · rw [hle, List.countP_append, hzero, h.count, Nat.add_zero]
  · rw [hw, hle]
    exact h.winner
  · rw [hle, hw]
    intro hpos
    obtain ⟨u, z, hu, hz⟩ := h.heard hpos
    exact ⟨u, z, List.mem_append_left _ hu, hz⟩
  · intro v z hv hz
    rw [hle]
    rcases List.mem_append.1 hv with hv | hv
    · exact h.relays v z hv hz
    · exact absurd (hn v z hv) hz
  · rw [hle]
    exact fun hpos => (h.passed hpos).imp fun z hz v hl => List.mem_append_left _ (hz v hl)
  · rw [hle, hs]
    intro hd
    obtain ⟨u, z, hu, hz⟩ := h.verdict hd
    exact ⟨u, z, List.mem_append_left _ hu, hz⟩
  · rw [hs, hle]
    exact h.leader

theorem Spread.start (h : Spread T w e inbox sent) (hd : 0 < T.degree w) (hw : e.winner = none)
    (he : e'.leaderEchoes = e.leaderEchoes ∧ e'.winner = e.winner ∧ e'.status = .initiator)
    (hn : ∀ v z, announcement w v z ∉ new) : Spread T w e' inbox (sent ++ new) := by
  obtain ⟨hle, hwe, hs⟩ := he
  have hzero : e'.leaderEchoes = 0 := by
    rw [hle]
    by_contra hpos
    obtain ⟨u, z, -, hz⟩ := h.heard hpos
    simp [hw] at hz
  constructor
  · rw [hle, h.count]
  · exact fun hwin => absurd (hwe.trans hw) hwin
  · exact fun hpos => absurd hzero hpos
  · intro v z hv hz
    rw [hle]
    exact h.relays v z (by simpa [hn] using hv) hz
  · exact fun hpos => absurd hzero hpos
  · intro hle
    omega
  · intro hl
    simp [hs] at hl

theorem leaderEchoes_onLeader (n : Nat) : (e.onLeader z n).1.leaderEchoes = e.leaderEchoes + 1 := by
  unfold onLeader
  dsimp only
  split <;> rfl

theorem winner_onLeader (n : Nat) : (e.onLeader z n).1.winner = some z := by
  unfold onLeader
  dsimp only
  split <;> rfl

theorem status_onLeader (n : Nat) : (e.onLeader z n).1.status =
    if e.leaderEchoes + 1 = n then (if z = e.own then .leader else .nonLeader) else e.status := by
  unfold onLeader
  dsimp only
  split <;> rfl

/-- The first announcement is passed on, unless it is the server's own. -/
theorem Spread.lead (h : Spread T w e inbox sent) (ho : e.own = w)
    (hown : z = w → ∀ v, T.Linked w v → announcement w v w ∈ sent) :
    Spread T w (e.onLeader z (T.degree w)).1 (inbox ++ [announcement u w z])
      (sent ++ if e.leaderEchoes = 0 ∧ z ≠ w then (T.neighbours w).map (announcement w · z) else [])
    := by
  have hlast : announcement u w z ∈ inbox ++ [announcement u w z] := by simp
  constructor
  · simp [leaderEchoes_onLeader, h.count, List.countP_append]
  · simp [leaderEchoes_onLeader]
  · exact fun _ => ⟨u, z, hlast, winner_onLeader _⟩
  · simp [leaderEchoes_onLeader]
  · intro _
    by_cases hpos : e.leaderEchoes = 0
    · by_cases hz : z = w
      · exact ⟨w, fun v hl => List.mem_append_left _ (hown hz v hl)⟩
      · refine ⟨z, fun v hl => List.mem_append_right _ ?_⟩
        rw [if_pos ⟨hpos, hz⟩]
        exact announcement_mem_map.2 ⟨rfl, hl, rfl⟩
    · exact (h.passed hpos).imp fun a ha v hl => List.mem_append_left _ (ha v hl)
  · rw [leaderEchoes_onLeader, status_onLeader, ho]
    intro hd
    by_cases hfull : e.leaderEchoes + 1 = T.degree w
    · exact ⟨u, z, hlast, by rw [if_pos hfull]⟩
    · obtain ⟨a, b, hb, hs⟩ := h.verdict (by omega)
      exact ⟨a, b, List.mem_append_left _ hb, by rw [if_neg hfull, hs]⟩
  · rw [leaderEchoes_onLeader, status_onLeader]
    intro hs
    split at hs
    · omega
    · have hle := h.leader hs
      omega

theorem Spread.turn (h : Spread T w e inbox sent) (hd : 0 < T.degree w) (ho : e.own = w)
    {heard : Option Packet} (t : Turn T w e heard e' new)
    (hown : ∀ u, heard = some (announcement u w w) →
      ∀ v, T.Linked w v → announcement w v w ∈ sent) :
    Spread T w e' (inbox ++ heard.toList) (sent ++ new) := by
  cases t with
  | idle => simpa using h
  | start hw _ =>
    rw [Option.toList_none, List.append_nil]
    exact h.start hd hw ⟨rfl, rfl, rfl⟩ (by simp)
  | pass u x c => exact h.wave ⟨rfl, rfl, rfl⟩ (by simp) (by simp)
  | join u x =>
    refine h.wave ⟨rfl, rfl, rfl⟩ (by simp) fun v z hv => ?_
    split at hv <;> simp at hv
  | count u x => exact h.wave ⟨rfl, rfl, rfl⟩ (by simp) (by simp)
  | echo u x v => exact h.wave ⟨rfl, rfl, rfl⟩ (by simp) (by simp)
  | announce u => exact h.wave ⟨rfl, rfl, rfl⟩ (by simp) (by simp)
  | lead a z => exact h.lead ho fun hz => hown a (by rw [hz])

end Election

end RelayMesh
