import RelayMesh.Proofs.Election.Completion
import Mathlib.Data.List.Perm.Subperm
import Mathlib.Order.WellFounded

namespace RelayMesh

namespace Election

/-- A server starts a wave only as long as nothing has reached it. -/
def StartsFresh (s : Overlay Election) : Event Unit → Prop
  | .command a _ => ∀ p ∈ s.delivered, p.target ≠ a
  | .deliver _ => True

instance (s : Overlay Election) (e : Event Unit) : Decidable (StartsFresh s e) :=
  match e with
  | .command a _ => inferInstanceAs (Decidable (∀ p ∈ s.delivered, p.target ≠ a))
  | .deliver _ => .isTrue trivial

/-- A server that has started a wave joins smaller ones only. -/
def Prior (s : Overlay Election) : Prop :=
  ∀ a, Joined s a a → ∀ x, Joined s x a → x ≤ a

variable {T : Topology} {s s' : Overlay Election} {w u v x m a : Id} {heard : Option Packet}
  {new : List Packet}

theorem prior_atRest : Prior atRest := fun a h => by simp [Joined, atRest, Overlay.sent] at h

/-- To join another wave, a server must have heard of it. -/
theorem Sane.joined_of_fresh (h : Sane T s) (hf : ∀ p ∈ s.delivered, p.target ≠ w)
    (hj : Joined s x w) : x = w := by
  by_contra hx
  obtain ⟨u, -, -, htold, -⟩ := h.exists_upstream hj hx
  exact hf _ htold rfl

/-- A server joins a wave when it starts its own or hears of a smaller one than before. -/
theorem Sane.joined_moved (h : Sane T s) (mv : Moved T s w heard new s') (hj : Joined s' x a) :
    Joined s x a ∨ a = w ∧ (heard = none ∧ x = w ∨
      heard ≠ none ∧ x ≠ w ∧ (s.nodes w).isOutbid x = false) := by
  obtain ⟨v, hv⟩ := hj
  rcases mv.mem_sent.1 hv with hv | hv
  · exact .inl ⟨v, hv⟩
  obtain rfl : a = w := (h.new_linked mv _ hv).1
  rcases mv.turn.of_token hv with ⟨hn, hx⟩ | ⟨hx, ho | hc, b, hb⟩
  · exact .inr ⟨rfl, .inl ⟨hn, hx⟩⟩
  · exact .inr ⟨rfl, .inr ⟨by simp [hb], hx, ho⟩⟩
  · exact .inl (h.joined_candidate mv.degree hc)

theorem Prior.moved (hp : Prior s) (h : Sane T s) (mv : Moved T s w heard new s')
    (hf : heard = none → ∀ p ∈ s.delivered, p.target ≠ w) : Prior s' := by
  intro a ha x hx
  rcases h.joined_moved mv ha with ha | ⟨rfl, ⟨hn, -⟩ | ⟨-, hne, -⟩⟩
  · rcases h.joined_moved mv hx with hx | ⟨rfl, ⟨-, rfl⟩ | ⟨-, -, ho⟩⟩
    · exact hp a ha x hx
    · exact UInt32.le_refl _
    · obtain ⟨c, hc, hle⟩ := isOutbid_iff.1 (h.joined_isOutbid ha)
      exact UInt32.le_of_lt (UInt32.lt_of_lt_of_le (lt_of_not_isOutbid ho hc) hle)
  · rcases h.joined_moved mv hx with hx | ⟨-, ⟨-, rfl⟩ | ⟨hsome, -⟩⟩
    · rw [h.joined_of_fresh (hf hn) hx]
      exact UInt32.le_refl _
    · exact UInt32.le_refl _
    · exact absurd hn hsome
  · exact absurd rfl hne

/-- A start is not refused as long as nothing has arrived, except by a server that has started. -/
theorem Sane.joined_start (h : Sane T s) (mv : Moved T s w none new s')
    (hf : ∀ p ∈ s.delivered, p.target ≠ w) : Joined s' w w := by
  have hempty : inbox s w = [] := List.filter_eq_nil_iff.2 fun p hp => by simpa using hf p hp
  obtain ⟨_, t⟩ := mv.exists_turn
  cases t with
  | idle hi =>
    rcases hi with hwin | ho
    · have hcount := (h.spread w mv.degree).count
      rw [hempty] at hcount
      exact absurd hcount ((h.spread w mv.degree).winner hwin)
    · obtain ⟨c, hc, -⟩ := isOutbid_iff.1 ho
      have hj := h.joined_candidate mv.degree hc
      obtain rfl := h.joined_of_fresh hf hj
      exact hj.moved mv
  | start hw ho =>
    obtain ⟨v, hl⟩ := Topology.exists_linked_of_degree_pos mv.degree
    exact ⟨v, mv.mem_sent.2 (.inr (token_mem_map.2 ⟨rfl, hl, rfl⟩))⟩

/-- What holds as long as the events that happen are among `all`. -/
structure Begun (T : Topology) (all : List (Event Unit)) (s : Overlay Election) : Prop where
  sane : Sane T s
  prior : Prior s
  started : ∀ a, Joined s a a → .command a () ∈ all

theorem Begun.moved {all : List (Event Unit)} (h : Begun T all s) (mv : Moved T s w heard new s')
    (hf : heard = none → .command w () ∈ all ∧ ∀ p ∈ s.delivered, p.target ≠ w) :
    Begun T all s' where
  sane := h.sane.moved mv
  prior := h.prior.moved h.sane mv fun hn => (hf hn).2
  started a ha := by
    rcases h.sane.joined_moved mv ha with ha | ⟨rfl, ⟨hn, -⟩ | ⟨-, hne, -⟩⟩
    · exact h.started a ha
    · exact (hf hn).1
    · exact absurd rfl hne

theorem run_begun (hd : ∀ a ∈ T.servers, 0 < T.degree a) {all events : List (Event Unit)}
    (he : Overlay.Admitted T (behaviour T) (fun s e => StartsFresh s e ∧ e ∈ all) atRest events) :
    Begun T all (atRest.run T (behaviour T) events) :=
  Overlay.run_invariant
    (fun _ a _ h ha hr => h.moved (h.sane.moved_command (hd a ha)) fun _ => ⟨hr.2, hr.1⟩)
    (fun _ _ _ _ h hw _ => h.moved (h.sane.moved_arrival hw) (by simp))
    ⟨sane_atRest, prior_atRest, fun a h => absurd h (by simp [Joined, atRest, Overlay.sent])⟩ he

/-- Whoever is told to start does so, and its wave stays. -/
theorem run_joined (hd : ∀ a ∈ T.servers, 0 < T.degree a) {events : List (Event Unit)}
    (he : Overlay.Admitted T (behaviour T) StartsFresh atRest events) (ha : a ∈ T.servers)
    (hmem : .command a () ∈ events) : Joined (atRest.run T (behaviour T) events) a a := by
  obtain ⟨before, after, rfl⟩ := List.append_of_mem hmem
  obtain ⟨hbefore, hfresh, -⟩ := Overlay.admitted_append.1 he
  have hsane := run_sane hd before
  rw [Overlay.run_append]
  generalize atRest.run T (behaviour T) before = s at hfresh hsane
  have mv := hsane.moved_command (hd a ha)
  have hstep : s.step T (behaviour T) (.command a ()) =
      s.act T a ((behaviour T).command a () (s.nodes a)) := if_pos ha
  rw [Overlay.run, List.foldl_cons, hstep]
  have key : Sane T (s.act T a ((behaviour T).command a () (s.nodes a))) ∧
      Joined (s.act T a ((behaviour T).command a () (s.nodes a))) a a :=
    ⟨hsane.moved mv, hsane.joined_start mv hfresh⟩
  refine (Overlay.run_invariant (I := fun s => Sane T s ∧ Joined s a a) ?_ ?_ key
    (Overlay.admitted_true _ after)).2
  · rintro t b - ⟨ht, hj⟩ hb -
    have mv := ht.moved_command (hd b hb)
    exact ⟨ht.moved mv, hj.moved mv⟩
  · rintro t front p back ⟨ht, hj⟩ hw -
    have mv := ht.moved_arrival hw
    exact ⟨ht.moved mv, hj.moved mv⟩

/-- The wave of `x` has come back to it, and it has said so. -/
def Announced (s : Overlay Election) (x : Id) : Prop := ∃ v, announcement x v x ∈ s.sent

/-- The wave of `m` is the smallest one, and nothing is on its way. -/
structure Ended (T : Topology) (m : Id) (s : Overlay Election) : Prop where
  sane : Sane T s
  connected : T.Connected
  quiet : s.wire = []
  joined : Joined s m m
  least : ∀ x, Joined s x x → m ≤ x

/-- The election has ended, and nobody that started a wave joined a larger one. -/
structure Settled (T : Topology) (m : Id) (s : Overlay Election) : Prop extends Ended T m s where
  prior : Prior s

namespace Ended

theorem sent_eq (h : Ended T m s) : s.sent = s.delivered := by
  rw [Overlay.sent, h.quiet, List.append_nil]

/-- A server that is outbid in the wave of `m` takes part in it. -/
theorem candidate_eq (h : Ended T m s) (hd : 0 < T.degree w)
    (ho : (s.nodes w).isOutbid m = true) : (s.nodes w).candidate = some m := by
  obtain ⟨c, hc, hle⟩ := isOutbid_iff.1 ho
  have hm := h.least c (h.sane.joined_root (h.sane.joined_candidate hd hc))
  rw [hc, UInt32.le_antisymm hle hm]

theorem all_joined (h : Ended T m s) : ∀ w ∈ T.servers, Joined s m w := by
  obtain ⟨v₀, hv₀⟩ := h.joined
  refine h.connected.spread (fun u v hl hj => ?_) (h.sane.linked _ hv₀).source_mem h.joined
  have hdv := Topology.degree_pos hl.symm
  by_cases hfrom : upstream (inbox s u) m = some v
  · have hmem := (h.sane.proper u).mem_of_upstream hfrom
    exact .of_delivered (token_mem_inbox.1 hmem)
  · have htold := h.sane.token_of_joined hj hl fun _ => hfrom
    rw [h.sent_eq] at htold
    have ho := ((h.sane.waves v hdv).part m).met u (token_mem_inbox.2 htold)
    exact h.sane.joined_candidate hdv (h.candidate_eq hdv ho)

theorem current (h : Ended T m s) (hw : Joined s m w) :
    Current T w (s.nodes w) (inbox s w) s.sent m := by
  have hd := h.sane.joined_degree hw
  exact (h.sane.waves w hd).current m (h.candidate_eq hd (h.sane.joined_isOutbid hw))

theorem full (h : Ended T m s) (hj : Joined s m w) (ha : Answered T s m w) :
    (s.nodes w).tokenEchoes = T.degree w := by
  rw [(h.current hj).count]
  exact List.countP_eq_length.2 fun v hv => by simpa using ha v (by simpa using hv)

/-- A server that lacks an answer lacks it from a server further from `m` that lacks one too. -/
theorem exists_unanswered (h : Ended T m s) (ha : ¬ Answered T s m w) :
    ∃ v, Joined s m v ∧ ¬ Answered T s m v ∧ rank s m w < rank s m v := by
  obtain ⟨v, hl, hnot⟩ : ∃ v, T.Linked w v ∧ token v w m ∉ s.delivered := by
    by_contra hall
    exact ha fun v hl => by_contra fun hnot => hall ⟨v, hl, hnot⟩
  have hj := h.all_joined v hl.target_mem
  rw [← h.sent_eq] at hnot
  have hfrom : m ≠ v ∧ upstream (inbox s v) m = some w := by
    by_contra hfrom
    exact hnot (h.sane.token_of_joined hj hl.symm fun hm hup => hfrom ⟨hm, hup⟩)
  refine ⟨v, hj, fun hans => ?_, h.sane.climbs m v w (Ne.symm hfrom.1) hfrom.2⟩
  exact hnot ((h.current hj).answers (h.full hj hans) hfrom.1 w hfrom.2)

theorem answered (h : Ended T m s) : Answered T s m w := by
  -- A chain of servers without all answers would get further from `m` for ever.
  induction hr : s.delivered.length - rank s m w using Nat.strongRecOn generalizing w with
  | ind r ih =>
    subst hr
    by_contra ha
    obtain ⟨v, ⟨_, hv⟩, hnot, hrank⟩ := h.exists_unanswered ha
    have hle := h.sane.rank_le_of_token hv
    exact hnot (ih _ (by omega) rfl)

theorem announced (h : Ended T m s) : ∀ v, T.Linked m v → announcement m v m ∈ s.sent :=
  (h.current h.joined).announces (h.full h.joined h.answered) rfl

/-- If no other wave comes back, nobody hears of another winner. -/
theorem eq_of_announcement (h : Ended T m s) (sole : ∀ x, Announced s x → x = m)
    (ha : announcement u v x ∈ s.sent) : x = m := by
  obtain ⟨hd, hsaid⟩ := h.sane.spoken u v x ha
  obtain ⟨a, hl⟩ := Topology.exists_linked_of_degree_pos hd
  exact sole x ⟨a, hsaid a hl⟩

theorem all_told (h : Ended T m s) (sole : ∀ x, Announced s x → x = m) :
    ∀ w ∈ T.servers, ∀ v, T.Linked w v → announcement w v m ∈ s.sent := by
  obtain ⟨a, ha⟩ := id h.joined
  refine h.connected.spread (P := fun w => ∀ v, T.Linked w v → announcement w v m ∈ s.sent)
    (fun u v hl hu => ?_) (h.sane.linked _ ha).source_mem h.announced
  have hheard : announcement u v m ∈ inbox s v := by
    rw [announcement_mem_inbox, ← h.sent_eq]
    exact hu v hl
  have hv := h.sane.spread v (Topology.degree_pos hl.symm)
  obtain ⟨z, hz⟩ := hv.passed (hv.leaderEchoes_ne_zero hheard)
  obtain rfl := h.eq_of_announcement sole (hz u hl.symm)
  exact hz

/-- Every server has heard of the winner from all its neighbours. -/
theorem degree_le_leaderEchoes (h : Ended T m s) (sole : ∀ x, Announced s x → x = m)
    (hd : 0 < T.degree w) : T.degree w ≤ (s.nodes w).leaderEchoes := by
  have hsub : (T.neighbours w).map (announcement · w m) ⊆ (inbox s w).filter isAnnouncement := by
    intro p hp
    obtain ⟨v, hv, rfl⟩ := List.mem_map.1 hp
    have hl := Topology.mem_neighbours.1 hv
    have htold := h.all_told sole v hl.target_mem w hl.symm
    rw [h.sent_eq] at htold
    simpa using htold
  have hnodup : ((T.neighbours w).map (announcement · w m)).Nodup :=
    (T.nodup_neighbours w).map fun a b hab => (announcement_inj.1 hab).1
  have hle := (hnodup.subperm hsub).length_le
  rwa [List.length_map, ← List.countP_eq_length_filter, ← (h.sane.spread w hd).count] at hle

theorem agreed (h : Ended T m s) (sole : ∀ x, Announced s x → x = m) (hd : 0 < T.degree w) :
    (s.nodes w).winner = some m ∧
      (s.nodes w).status = if w = m then .leader else .nonLeader := by
  have hfull := h.degree_le_leaderEchoes sole hd
  obtain ⟨u, z, hu, hwin⟩ := (h.sane.spread w hd).heard (by omega)
  obtain ⟨u', z', hu', hstatus⟩ := (h.sane.spread w hd).verdict hfull
  obtain rfl := h.eq_of_announcement sole (mem_sent_of_mem_delivered (announcement_mem_inbox.1 hu))
  obtain rfl := h.eq_of_announcement sole
    (mem_sent_of_mem_delivered (announcement_mem_inbox.1 hu'))
  exact ⟨hwin, by rw [hstatus]; simp [eq_comm]⟩

end Ended

namespace Settled

/-- No other wave comes back, since `m` would have had to join it. -/
theorem sole (h : Settled T m s) (hx : Announced s x) : x = m := by
  obtain ⟨v, hv⟩ := hx
  obtain ⟨b, hb⟩ := id h.joined
  have hall := h.sane.complete h.connected hv
  have hm := (hall m (h.sane.linked _ hb).source_mem).1
  exact UInt32.le_antisymm (h.prior m h.joined x hm) (h.least x (h.sane.joined_root hm))

theorem elected (h : Settled T m s) (hd : 0 < T.degree w) :
    (s.nodes w).winner = some m ∧
      (s.nodes w).status = if w = m then .leader else .nonLeader :=
  h.agreed (fun _ hx => h.sole hx) hd

end Settled

theorem exists_least {P : Id → Prop} (h : ∃ a, P a) : ∃ m, P m ∧ ∀ a, P a → m ≤ a := by
  obtain ⟨m, hm, hmin⟩ := WellFounded.has_min (measure UInt32.toNat).wf {a | P a} h
  exact ⟨m, hm, fun a ha => UInt32.le_iff_toNat_le.2 (Nat.le_of_not_lt (hmin a ha))⟩

/-- When nothing is on its way any more, all servers agree on the smallest one that started. -/
theorem smallest_wins (T : Topology) (hT : T.Connected) (hl : ∃ u v, T.Linked u v)
    (events : List (Event Unit))
    (he : Overlay.Admitted T (behaviour T) StartsFresh atRest events)
    (hs : ∃ a ∈ T.servers, .command a () ∈ events) :
    let s := atRest.run T (behaviour T) events
    s.wire = [] → ∃ m ∈ T.servers, .command m () ∈ events ∧
      (∀ a ∈ T.servers, .command a () ∈ events → m ≤ a) ∧
        ∀ w ∈ T.servers, (s.nodes w).winner = some m ∧
          (s.nodes w).status = if w = m then .leader else .nonLeader := by
  intro s hw
  obtain ⟨u, v, hl⟩ := hl
  have hd : ∀ a ∈ T.servers, 0 < T.degree a := fun a ha => hT.degree_pos hl ha
  have begun : Begun T events s := run_begun hd he.mem
  obtain ⟨m, ⟨hm, hmem⟩, hleast⟩ := exists_least hs
  have settled : Settled T m s :=
    { sane := begun.sane
      connected := hT
      quiet := hw
      joined := run_joined hd he hm hmem
      least := fun x hx => by
        obtain ⟨_, hv⟩ := id hx
        exact hleast x ⟨(begun.sane.linked _ hv).source_mem, begun.started x hx⟩
      prior := begun.prior }
  exact ⟨m, hm, hmem, fun a ha hc => hleast a ⟨ha, hc⟩, fun w hw => settled.elected (hd w hw)⟩

/-- Server 3 starts, and server 1 before it has heard of that. -/
def contest : List (Event Unit) :=
  [.command 3 (), .command 1 ()] ++ List.replicate 12 (.deliver 0)

theorem smallest_wins_contest :
    let s := atRest.run .row (behaviour .row) contest
    Topology.row.Connected ∧ (∃ u v, Topology.row.Linked u v) ∧
      Overlay.Admitted .row (behaviour .row) StartsFresh atRest contest ∧
      (∃ a ∈ Topology.row.servers, .command a () ∈ contest) ∧ s.wire = [] ∧
      ∃ m ∈ Topology.row.servers, .command m () ∈ contest ∧
        (∀ a ∈ Topology.row.servers, .command a () ∈ contest → m ≤ a) ∧
          ∀ w ∈ Topology.row.servers, (s.nodes w).winner = some m ∧
            (s.nodes w).status = if w = m then .leader else .nonLeader := by
  intro s
  have hl : ∃ u v, Topology.row.Linked u v := ⟨1, 2, by decide⟩
  have he : Overlay.Admitted .row (behaviour .row) StartsFresh atRest contest := by decide
  have hs : ∃ a ∈ Topology.row.servers, .command a () ∈ contest := ⟨1, by decide, by decide⟩
  have hw : s.wire = [] := by decide
  exact ⟨Topology.connected_row, hl, he, hs, hw,
    smallest_wins .row Topology.connected_row hl contest he hs hw⟩

end Election

end RelayMesh
