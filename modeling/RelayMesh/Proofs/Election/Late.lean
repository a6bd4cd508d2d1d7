import RelayMesh.Proofs.Election.Agreement

namespace RelayMesh

namespace Election

variable {T : Topology} {s s' : Overlay Election} {w a : Id} {new : List Packet}

/-- A winner that a server knows of has started a wave. -/
theorem Sane.exists_joined_of_winner (h : Sane T s) (hd : 0 < T.degree w)
    (hw : (s.nodes w).winner ≠ none) : ∃ x, Joined s x x := by
  have hspread := h.spread w hd
  obtain ⟨u, z, hin, -⟩ := hspread.heard (hspread.winner hw)
  obtain ⟨hz, hsaid⟩ := h.spoken u w z (mem_sent_of_mem_delivered (announcement_mem_inbox.1 hin))
  obtain ⟨v, hl⟩ := Topology.exists_linked_of_degree_pos hz
  have hback : token v z z ∈ inbox s z := (h.waves z hz).announced v (hsaid v hl) v hl
  exact ⟨z, h.root v z z (mem_sent_of_mem_delivered (token_mem_inbox.1 hback))⟩

/-- Whoever is told to start, there is a wave afterwards: a start is refused for a wave only. -/
theorem Sane.exists_joined_start (h : Sane T s) (mv : Moved T s w none new s') :
    ∃ x, Joined s' x x := by
  obtain ⟨_, t⟩ := mv.exists_turn
  cases t with
  | idle hi =>
    have hold : ∃ x, Joined s x x := by
      rcases hi with hwin | hout
      · exact h.exists_joined_of_winner mv.degree hwin
      · obtain ⟨c, hc, -⟩ := isOutbid_iff.1 hout
        exact ⟨c, h.joined_root (h.joined_candidate mv.degree hc)⟩
    obtain ⟨x, hx⟩ := hold
    exact ⟨x, hx.moved mv⟩
  | start hwin hout =>
    obtain ⟨v, hl⟩ := Topology.exists_linked_of_degree_pos mv.degree
    exact ⟨w, v, mv.mem_sent.2 (.inr (token_mem_map.2 ⟨rfl, hl, rfl⟩))⟩

/-- Waves stay. -/
theorem run_exists_joined (hd : ∀ a ∈ T.servers, 0 < T.degree a) {events : List (Event Unit)}
    (ha : a ∈ T.servers) (hmem : .command a () ∈ events) :
    ∃ x, Joined (atRest.run T (behaviour T) events) x x := by
  obtain ⟨before, after, rfl⟩ := List.append_of_mem hmem
  have hsane := run_sane hd before
  rw [Overlay.run_append]
  generalize atRest.run T (behaviour T) before = s at hsane
  have mv := hsane.moved_command (hd a ha)
  have hstep : s.step T (behaviour T) (.command a ()) =
      s.act T a ((behaviour T).command a () (s.nodes a)) := if_pos ha
  rw [Overlay.run, List.foldl_cons, hstep]
  have key := And.intro (hsane.moved mv) (hsane.exists_joined_start mv)
  refine (Overlay.run_invariant (I := fun s => Sane T s ∧ ∃ x, Joined s x x) ?_ ?_ key
    (Overlay.admitted_true _ after)).2
  · rintro t b - ⟨ht, x, hx⟩ hb -
    have mv := ht.moved_command (hd b hb)
    exact ⟨ht.moved mv, x, hx.moved mv⟩
  · rintro t front p back ⟨ht, x, hx⟩ hw -
    have mv := ht.moved_arrival hw
    exact ⟨ht.moved mv, x, hx.moved mv⟩

/-- A server on its own, before and after its start. -/
def Lonely (a : Id) (s : Overlay Election) : Prop :=
  s.wire = [] ∧ (s.nodes a = { own := a } ∨ (s.nodes a).winner = some a ∧
    (s.nodes a).status = .leader)

theorem Lonely.command (hd : T.degree a = 0) (h : Lonely a s) :
    Lonely a (s.act T a ((behaviour T).command a () (s.nodes a))) ∧
      ((s.act T a ((behaviour T).command a () (s.nodes a))).nodes a).winner = some a := by
  obtain ⟨hwire, hfresh | ⟨hwin, hlead⟩⟩ := h
  · have hstart : (behaviour T).command a () (s.nodes a) =
        ({ own := a, candidate := some a, winner := some a, status := .leader }, []) := by
      simp [behaviour, hfresh, hd, start, isOutbid]
    rw [hstart]
    exact ⟨⟨by simp [Overlay.act, hwire], .inr (by simp)⟩, by simp⟩
  · have hstart : (behaviour T).command a () (s.nodes a) = (s.nodes a, []) := by
      simp [behaviour, start, hwin]
    rw [hstart]
    exact ⟨⟨by simp [Overlay.act, hwire], .inr (by simp [hwin, hlead])⟩, by simp [hwin]⟩

/-- A server without neighbours wins as soon as it starts. -/
theorem run_lonely (hT : ∀ b ∈ T.servers, b = a) (hd : T.degree a = 0) {events : List (Event Unit)}
    (ha : a ∈ T.servers) (hmem : .command a () ∈ events) :
    ((atRest.run T (behaviour T) events).nodes a).winner = some a ∧
      ((atRest.run T (behaviour T) events).nodes a).status = .leader := by
  obtain ⟨before, after, rfl⟩ := List.append_of_mem hmem
  have hbefore : Lonely a (atRest.run T (behaviour T) before) := by
    refine Overlay.run_invariant (I := Lonely a) ?_ ?_ ⟨rfl, .inl rfl⟩
      (Overlay.admitted_true _ before)
    · intro t b _ ht hb _
      obtain rfl := hT b hb
      exact (ht.command hd).1
    · intro t front p back ht hw _
      simp [ht.1] at hw
  rw [Overlay.run_append]
  generalize atRest.run T (behaviour T) before = s at hbefore
  have hstep : s.step T (behaviour T) (.command a ()) =
      s.act T a ((behaviour T).command a () (s.nodes a)) := if_pos ha
  rw [Overlay.run, List.foldl_cons, hstep]
  have hafter := Overlay.run_invariant (T := T) (B := behaviour T)
    (I := fun s => Lonely a s ∧ (s.nodes a).winner = some a) ?_ ?_ (hbefore.command hd)
    (Overlay.admitted_true _ after)
  · obtain ⟨⟨-, hfresh | hdone⟩, hwin⟩ := hafter
    · rw [Overlay.run] at hfresh hwin
      rw [hfresh] at hwin
      simp at hwin
    · exact hdone
  · intro t b _ ht hb _
    obtain rfl := hT b hb
    exact ht.1.command hd
  · intro t front p back ht hw _
    simp [ht.1.1] at hw

/-- When nothing is on its way any more after some start, at whatever times the servers started:
unless two of them have announced themselves, all servers agree on one winner, the only leader. -/
theorem agreed_or_two_announced (T : Topology) (hT : T.Connected) (events : List (Event Unit))
    (hs : ∃ a ∈ T.servers, .command a () ∈ events) :
    let s := atRest.run T (behaviour T) events
    s.wire = [] → (∃ x y, x ≠ y ∧ Announced s x ∧ Announced s y) ∨
      ∃ m ∈ T.servers, ∀ w ∈ T.servers, (s.nodes w).winner = some m ∧
        (s.nodes w).status = if w = m then .leader else .nonLeader := by
  intro s hquiet
  obtain ⟨a, ha, hmem⟩ := hs
  by_cases hzero : T.degree a = 0
  · have halone : ∀ b ∈ T.servers, b = a := by
      intro b hb
      by_contra hne
      have hpos := hT.degree_pos_of_ne ha hb (Ne.symm hne)
      omega
    obtain ⟨hwin, hlead⟩ := run_lonely halone hzero ha hmem
    refine .inr ⟨a, ha, fun w hw => ?_⟩
    obtain rfl := halone w hw
    exact ⟨hwin, by rw [if_pos rfl]; exact hlead⟩
  · obtain ⟨v, hl⟩ := Topology.exists_linked_of_degree_pos (Nat.pos_of_ne_zero hzero)
    have hd : ∀ b ∈ T.servers, 0 < T.degree b := fun b hb => hT.degree_pos hl hb
    have hsane : Sane T s := run_sane hd events
    obtain ⟨m, hm, hleast⟩ := exists_least (run_exists_joined hd ha hmem)
    have ended : Ended T m s := ⟨hsane, hT, hquiet, hm, hleast⟩
    have hpos := hsane.joined_degree hm
    obtain ⟨u, hu⟩ := Topology.exists_linked_of_degree_pos hpos
    have hann : Announced s m := ⟨u, ended.announced u hu⟩
    by_cases sole : ∀ x, Announced s x → x = m
    · exact .inr ⟨m, hu.source_mem, fun w hw => ended.agreed sole (hd w hw)⟩
    · obtain ⟨x, hx⟩ := Classical.not_forall.1 sole
      obtain ⟨hx, hne⟩ := Classical.not_imp.1 hx
      exact .inl ⟨x, m, hne, hx, hann⟩

/-- Server 2 starts when it has already joined the wave of server 3. -/
def turncoat : List (Event Unit) :=
  [.command 3 (), .deliver 0, .command 2 ()] ++ List.replicate 12 (.deliver 0)

theorem agreed_or_two_announced_turncoat :
    let s := atRest.run .row (behaviour .row) turncoat
    Topology.row.Connected ∧ (∃ a ∈ Topology.row.servers, .command a () ∈ turncoat) ∧
      s.wire = [] ∧ ((∃ x y, x ≠ y ∧ Announced s x ∧ Announced s y) ∨
        ∃ m ∈ Topology.row.servers, ∀ w ∈ Topology.row.servers, (s.nodes w).winner = some m ∧
          (s.nodes w).status = if w = m then .leader else .nonLeader) := by
  intro s
  have hs : ∃ a ∈ Topology.row.servers, .command a () ∈ turncoat := ⟨3, by decide, by decide⟩
  have hw : s.wire = [] := by decide
  exact ⟨Topology.connected_row, hs, hw,
    agreed_or_two_announced .row Topology.connected_row turncoat hs hw⟩

/-- Servers 1 and 2 have answered to server 3 when server 1 starts. Its wave comes back through
server 2, which has passed the announcement of server 3 on, but server 3 hears of that only after it
has counted the announcement of server 1. -/
def lateStart : List (Event Unit) :=
  .command 3 () :: List.replicate 4 (.deliver 0) ++ .command 1 () ::
    [1, 0, 0, 0, 2, 0, 0, 0, 0, 2, 3, 1, 3, 0, 0, 0].map .deliver

/-- In the end nobody is the leader, and the servers do not agree on the winner. -/
theorem late_start_leaderless :
    let s := atRest.run .triangle (behaviour .triangle) lateStart
    Topology.triangle.Connected ∧
      Overlay.Admitted .triangle (behaviour .triangle) Overlay.InOrder atRest lateStart ∧
      (∃ a ∈ Topology.triangle.servers, .command a () ∈ lateStart) ∧ s.wire = [] ∧
      (∀ w ∈ Topology.triangle.servers, (s.nodes w).status = .nonLeader) ∧
      ¬ ∃ m, ∀ w ∈ Topology.triangle.servers, (s.nodes w).winner = some m := by
  intro s
  have hin : Overlay.Admitted .triangle (behaviour .triangle) Overlay.InOrder atRest lateStart := by
    decide
  have hw : s.wire = [] := by decide
  have hstatus : ∀ w ∈ Topology.triangle.servers, (s.nodes w).status = .nonLeader :=
    Topology.forall_servers (by decide)
  have hone : (s.nodes 1).winner = some 3 := by decide
  have htwo : (s.nodes 2).winner = some 1 := by decide
  refine ⟨Topology.connected_triangle, hin, ⟨3, by decide, by decide⟩, hw, hstatus, ?_⟩
  rintro ⟨m, hm⟩
  have h1 := hm 1 (by decide)
  have h2 := hm 2 (by decide)
  rw [hone] at h1
  rw [htwo, ← h1] at h2
  exact absurd h2 (by decide)

end Election

end RelayMesh
