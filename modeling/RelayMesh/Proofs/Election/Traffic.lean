import RelayMesh.Proofs.Election.Spread
import Mathlib.Data.List.Nodup

namespace RelayMesh

namespace Election

/-- What server `w` has heard, in the order of arrival. -/
def inbox (s : Overlay Election) (w : Id) : List Packet := s.delivered.filter (·.target = w)

/-- When server `w` first heard of the wave of `x`; the one that started it is ahead of all others. -/
def rank (s : Overlay Election) (x w : Id) : Nat :=
  if w = x then 0
  else s.delivered.findIdx (fun p => p.target = w ∧ p.msg.content = .electionToken x) + 1

/-- Server `w` has its turn, and what it sends is new. -/
structure Moved (T : Topology) (s : Overlay Election) (w : Id) (heard : Option Packet)
    (new : List Packet) (s' : Overlay Election) : Prop where
  degree : 0 < T.degree w
  turn : Turn T w (s.nodes w) heard (s'.nodes w) new
  others : ∀ a, a ≠ w → s'.nodes a = s.nodes a
  sent : s'.sent.Perm (s.sent ++ new)
  delivered : s'.delivered = s.delivered ++ heard.toList
  arrival : ∀ p ∈ heard, p ∈ s.sent ∧ p ∉ s.delivered

structure Sane (T : Topology) (s : Overlay Election) : Prop where
  linked : ∀ p ∈ s.sent, T.Linked p.source p.target
  canonical : ∀ p ∈ s.sent, Canonical p
  once : s.sent.Nodup
  waves : ∀ w, 0 < T.degree w → Waves T w (s.nodes w) (inbox s w) s.sent
  spread : ∀ w, 0 < T.degree w → Spread T w (s.nodes w) (inbox s w) s.sent
  root : ∀ u v x, token u v x ∈ s.sent → ∃ v', token x v' x ∈ s.sent
  spoken : ∀ u v z, announcement u v z ∈ s.sent →
    0 < T.degree z ∧ ∀ v', T.Linked z v' → announcement z v' z ∈ s.sent
  climbs : ∀ x w u, w ≠ x → upstream (inbox s w) x = some u → rank s x u < rank s x w

variable {T : Topology} {s s' : Overlay Election} {w u v x : Id} {heard : Option Packet}
  {new : List Packet}

theorem sane_atRest : Sane T atRest where
  linked := by simp [atRest, Overlay.sent]
  canonical := by simp [atRest, Overlay.sent]
  once := by simp [atRest, Overlay.sent]
  waves w _ := waves_start T w
  spread w hd := spread_start hd
  root := by simp [atRest, Overlay.sent]
  spoken := by simp [atRest, Overlay.sent]
  climbs := by simp [atRest, inbox, upstream]

theorem mem_inbox {p : Packet} : p ∈ inbox s w ↔ p ∈ s.delivered ∧ p.target = w := by
  simp [inbox]

@[simp] theorem token_mem_inbox : token u w x ∈ inbox s w ↔ token u w x ∈ s.delivered := by
  simp [inbox]

@[simp] theorem announcement_mem_inbox :
    announcement u w x ∈ inbox s w ↔ announcement u w x ∈ s.delivered := by
  simp [inbox]

theorem mem_sent_of_mem_delivered {p : Packet} (h : p ∈ s.delivered) : p ∈ s.sent :=
  List.mem_append_left _ h

theorem Turn.target {e e' : Election} (t : Turn T w e heard e' new) : ∀ p ∈ heard, p.target = w := by
  cases t <;> simp

theorem Moved.mem_sent (m : Moved T s w heard new s') {p : Packet} :
    p ∈ s'.sent ↔ p ∈ s.sent ∨ p ∈ new := by rw [m.sent.mem_iff, List.mem_append]

theorem Moved.inbox_self (m : Moved T s w heard new s') :
    inbox s' w = inbox s w ++ heard.toList := by
  rw [inbox, m.delivered, List.filter_append]
  congr 1
  exact List.filter_eq_self.2 fun p hp => by simpa using m.turn.target p (by simpa using hp)

theorem Moved.inbox_ne (m : Moved T s w heard new s') {a : Id} (ha : a ≠ w) :
    inbox s' a = inbox s a := by
  rw [inbox, m.delivered, List.filter_append]
  refine (congrArg _ (List.filter_eq_nil_iff.2 fun p hp => ?_)).trans (List.append_nil _)
  rw [m.turn.target p (by simpa using hp)]
  simpa using ha.symm

theorem Moved.upstream_eq (m : Moved T s w heard new s') {a : Id}
    (h : (upstream (inbox s a) x).isSome) : upstream (inbox s' a) x = upstream (inbox s a) x := by
  by_cases ha : a = w
  · subst ha
    rw [m.inbox_self, upstream_append_of_isSome h]
  · rw [m.inbox_ne ha]

theorem Moved.exists_turn (m : Moved T s w heard new s') :
    ∃ e', Turn T w (s.nodes w) heard e' new := ⟨_, m.turn⟩

/-- Once a server has heard of a wave, its rank stays. -/
theorem Moved.rank_eq (m : Moved T s w heard new s') {a : Id}
    (hr : rank s x a ≤ s.delivered.length) : rank s' x a = rank s x a := by
  unfold rank at hr ⊢
  split at hr
  next ha => simp [ha]
  next ha =>
    rw [if_neg ha, if_neg ha, m.delivered, List.findIdx_append, if_pos (by omega)]

/-- A server that has heard of a wave did so at some place of what arrived. -/
theorem rank_le_length (h : (upstream (inbox s w) x).isSome) : rank s x w ≤ s.delivered.length := by
  unfold rank
  split
  · exact Nat.zero_le _
  · rw [upstream, Option.isSome_map] at h
    obtain ⟨p, hp⟩ := Option.isSome_iff_exists.1 h
    have hmem := mem_inbox.1 (List.mem_of_find?_eq_some hp)
    have hc := List.find?_some hp
    exact List.findIdx_lt_length_of_exists ⟨p, hmem.1, by simpa [hmem.2] using hc⟩

namespace Sane

theorem proper (h : Sane T s) (w : Id) : Proper w (inbox s w) := fun p hp =>
  ⟨(mem_inbox.1 hp).2, h.canonical p (mem_sent_of_mem_delivered (mem_inbox.1 hp).1)⟩

theorem degree_pos (h : Sane T s) {p : Packet} (hp : p ∈ s.sent) :
    0 < T.degree p.source ∧ 0 < T.degree p.target :=
  ⟨Topology.degree_pos (h.linked p hp), Topology.degree_pos (h.linked p hp).symm⟩

/-- What a server sends goes from it to a neighbour. -/
theorem new_linked (h : Sane T s) (m : Moved T s w heard new s') :
    ∀ p ∈ new, p.source = w ∧ T.Linked w p.target ∧ Canonical p := by
  have htoken {v x : Id} (hl : T.Linked w v) :
      (token w v x).source = w ∧ T.Linked w (token w v x).target ∧ Canonical (token w v x) :=
    ⟨rfl, hl, .inl ⟨x, rfl⟩⟩
  have hann {v z : Id} (hl : T.Linked w v) : (announcement w v z).source = w ∧
      T.Linked w (announcement w v z).target ∧ Canonical (announcement w v z) :=
    ⟨rfl, hl, .inr ⟨z, rfl⟩⟩
  have heard_linked := fun p hp => h.linked p (m.arrival p hp).1
  intro p hp
  obtain ⟨_, t⟩ := m.exists_turn
  cases t with
  | idle => simp at hp
  | start hw ho =>
    obtain ⟨v, hv, rfl⟩ := List.mem_map.1 hp
    exact htoken (Topology.mem_neighbours.1 hv)
  | pass u x c hc hlt => simp at hp
  | join u x ho hx =>
    rcases List.mem_append.1 hp with hp | hp
    · obtain ⟨v, hv, rfl⟩ := List.mem_map.1 hp
      exact htoken (Topology.mem_neighbours.1 (List.mem_of_mem_filter hv))
    · split at hp
      · rw [List.mem_singleton.1 hp]
        exact htoken (heard_linked _ rfl).symm
      · simp at hp
  | count u x hc hd => simp at hp
  | echo u x v hc hd hx hparent =>
    have hcur := ((h.waves w m.degree).current x hc).parent
    rw [hparent, if_neg hx] at hcur
    have hmem := (h.proper w).mem_of_upstream hcur.symm
    rw [List.mem_singleton.1 hp]
    exact htoken (h.linked _ (mem_sent_of_mem_delivered (token_mem_inbox.1 hmem))).symm
  | announce u hc hd =>
    obtain ⟨v, hv, rfl⟩ := List.mem_map.1 hp
    exact hann (Topology.mem_neighbours.1 hv)
  | lead u z =>
    split at hp
    · obtain ⟨v, hv, rfl⟩ := List.mem_map.1 hp
      exact hann (Topology.mem_neighbours.1 hv)
    · simp at hp

/-- What a server sends it has not sent before. -/
theorem new_notMem (h : Sane T s) (m : Moved T s w heard new s') : ∀ p ∈ new, p ∉ s.sent := by
  have hw := h.waves w m.degree
  intro p hp hold
  obtain ⟨_, t⟩ := m.exists_turn
  cases t with
  | idle => simp at hp
  | start _ ho =>
    obtain ⟨v, -, rfl⟩ := List.mem_map.1 hp
    exact ((hw.part w).untouched ho).1 v hold
  | pass u x c hc hlt => simp at hp
  | join u x ho hx =>
    have hnone := ((hw.part x).untouched ho).1
    rcases List.mem_append.1 hp with hp | hp
    · obtain ⟨v, -, rfl⟩ := List.mem_map.1 hp
      exact hnone v hold
    · split at hp
      · rw [List.mem_singleton.1 hp] at hold
        exact hnone u hold
      · simp at hp
  | count u x hc hd => simp at hp
  | echo u x v hc hd hx hparent =>
    have hcur := (hw.current x hc).parent
    rw [hparent, if_neg hx] at hcur
    obtain ⟨hsent, hdel⟩ := m.arrival _ rfl
    rw [List.mem_singleton.1 hp] at hold
    exact hdel (token_mem_inbox.1 ((hw.part x).echo v hold hx hcur.symm u (h.linked _ hsent).symm))
  | announce u hc hd =>
    obtain ⟨hsent, hdel⟩ := m.arrival _ rfl
    obtain ⟨v, -, rfl⟩ := List.mem_map.1 hp
    exact hdel (token_mem_inbox.1 (hw.announced v hold u (h.linked _ hsent).symm))
  | lead u z =>
    split at hp
    next hz =>
      obtain ⟨v, -, rfl⟩ := List.mem_map.1 hp
      exact (h.spread w m.degree).relays v z hold hz.2 hz.1
    next => simp at hp

theorem nodup_new (m : Moved T s w heard new s') : new.Nodup := by
  have htoken (x : Id) : Function.Injective (token w · x) := fun a b h => (token_inj.1 h).2.1
  have hann (z : Id) : Function.Injective (announcement w · z) := fun a b h =>
    (announcement_inj.1 h).2.1
  have hn := T.nodup_neighbours w
  obtain ⟨_, t⟩ := m.exists_turn
  cases t with
  | idle => simp
  | start _ ho => exact hn.map (htoken w)
  | pass u x c hc hlt => simp
  | join u x ho hx =>
    refine List.Nodup.append ((hn.filter _).map (htoken x)) (by split <;> simp) fun p hp hq => ?_
    obtain ⟨v, hv, rfl⟩ := List.mem_map.1 hp
    split at hq
    · simp_all
    · simp at hq
  | count u x hc hd => simp
  | echo u x v hc hd hx hparent => simp
  | announce u hc hd => exact hn.map (hann w)
  | lead u z =>
    split
    · exact hn.map (hann z)
    · simp

/-- A token belongs to a wave that was started. -/
theorem new_root (h : Sane T s) (m : Moved T s w heard new s') (hn : token u v x ∈ new) :
    ∃ v', token x v' x ∈ s'.sent := by
  rcases m.turn.of_token hn with ⟨-, rfl⟩ | ⟨-, -, a, ha⟩
  · obtain rfl : u = x := (h.new_linked m _ hn).1
    exact ⟨v, m.mem_sent.2 (.inr hn)⟩
  · exact (h.root a w x (m.arrival _ ha).1).imp fun v' hv => m.mem_sent.2 (.inl hv)

/-- A winner that is announced has announced itself. -/
theorem new_spoken (h : Sane T s) (m : Moved T s w heard new s') (hn : announcement u v x ∈ new) :
    0 < T.degree x ∧ ∀ v', T.Linked x v' → announcement x v' x ∈ s'.sent := by
  obtain ⟨hall, ⟨rfl, -⟩ | ⟨-, -, a, ha⟩⟩ := m.turn.of_announcement hn
  · exact ⟨m.degree, fun v' hl => m.mem_sent.2 (.inr (hall v' hl))⟩
  · have hsaid := h.spoken a w x (m.arrival _ ha).1
    exact ⟨hsaid.1, fun v' hl => m.mem_sent.2 (.inl (hsaid.2 v' hl))⟩

/-- A server that tells of a wave has heard of it or started it. -/
theorem rank_le_of_token (h : Sane T s) (ht : token u v x ∈ s.sent) :
    rank s x u ≤ s.delivered.length := by
  by_cases hx : x = u
  · simp [rank, hx]
  · exact rank_le_length (((h.waves u (h.degree_pos ht).1).part x).source v ht hx)

/-- A server that hears of a wave for the first time comes after all that have heard of it. -/
theorem rank_of_first (h : Sane T s) (m : Moved T s w heard new s') (hw : w ≠ x)
    (hheard : heard = some (token u w x)) (hnone : ∀ v, token v w x ∉ inbox s w) :
    rank s' x w = s.delivered.length + 1 := by
  have hidx : s.delivered.findIdx (fun p => p.target = w ∧ p.msg.content = .electionToken x) =
      s.delivered.length := by
    refine List.findIdx_eq_length.2 fun p hp => ?_
    simp only [decide_eq_false_iff_not]
    rintro ⟨hpt, hpc⟩
    have htoken := (h.canonical p (mem_sent_of_mem_delivered hp)).eq_token hpc
    rw [hpt] at htoken
    exact hnone p.source (token_mem_inbox.2 (htoken ▸ hp))
  rw [rank, if_neg hw, m.delivered, List.findIdx_append, hidx, if_neg (Nat.lt_irrefl _), hheard]
  simp [List.findIdx_cons]

theorem moved_climbs (h : Sane T s) (m : Moved T s w heard new s') {a : Id} (ha : a ≠ x)
    (hup : upstream (inbox s' a) x = some u) : rank s' x u < rank s' x a := by
  cases hold : upstream (inbox s a) x with
  | some u' =>
    obtain rfl : u' = u := by
      rw [m.upstream_eq (by simp [hold]), hold] at hup
      simpa using hup
    have hlt := h.climbs x a u' ha hold
    have hle : rank s x a ≤ s.delivered.length := rank_le_length (by simp [hold])
    rwa [m.rank_eq hle, m.rank_eq (by omega)]
  | none =>
    -- The token that has just arrived is the first one.
    have haw : a = w := by
      by_contra hne
      rw [m.inbox_ne hne, hold] at hup
      simp at hup
    subst haw
    have hnone : ∀ v, token v a x ∉ inbox s a := by
      intro v hv
      rw [upstream, Option.map_eq_none_iff, List.find?_eq_none] at hold
      exact hold _ hv (by simp)
    have hmem : token u a x ∈ inbox s a ++ heard.toList := by
      have hproper : Proper a (inbox s a ++ heard.toList) := by
        intro p hp
        rcases List.mem_append.1 hp with hp | hp
        · exact h.proper a p hp
        · have hp : p ∈ heard := by simpa using hp
          exact ⟨m.turn.target p hp, h.canonical p (m.arrival p hp).1⟩
      rw [m.inbox_self] at hup
      exact hproper.mem_of_upstream hup
    have hheard : heard = some (token u a x) := by
      rcases List.mem_append.1 hmem with hmem | hmem
      · exact absurd hmem (hnone u)
      · simpa using hmem
    have hle := h.rank_le_of_token (m.arrival _ hheard).1
    rw [h.rank_of_first m ha hheard hnone, m.rank_eq hle]
    omega

theorem moved (h : Sane T s) (m : Moved T s w heard new s') : Sane T s' := by
  have hnew := h.new_linked m
  constructor
  case linked =>
    intro p hp
    rcases m.mem_sent.1 hp with hp | hp
    · exact h.linked p hp
    · obtain ⟨rfl, hl, -⟩ := hnew p hp
      exact hl
  case canonical =>
    intro p hp
    rcases m.mem_sent.1 hp with hp | hp
    · exact h.canonical p hp
    · exact (hnew p hp).2.2
  case once =>
    refine m.sent.nodup_iff.2 (List.Nodup.append h.once (nodup_new m) fun p hp hq => ?_)
    exact h.new_notMem m p hq hp
  case waves =>
    intro a hd
    by_cases ha : a = w
    · subst ha
      rw [m.inbox_self]
      refine ((h.waves a hd).turn hd (h.proper a) m.turn fun p hp => ?_).mem_sent_congr
        fun p _ => m.sent.mem_iff
      obtain ⟨hsent, hdel⟩ := m.arrival p hp
      exact ⟨fun hin => hdel (mem_inbox.1 hin).1, m.turn.target p hp ▸ h.linked p hsent⟩
    · rw [m.inbox_ne ha, m.others a ha]
      refine (h.waves a hd).mem_sent_congr fun p hp => ?_
      rw [m.mem_sent, or_iff_left fun hn => ha (hp ▸ (hnew p hn).1)]
  case spread =>
    intro a hd
    by_cases ha : a = w
    · subst ha
      rw [m.inbox_self]
      refine ((h.spread a hd).turn hd (h.waves a hd).own m.turn fun u hu => ?_).mem_sent_congr
        fun p _ => m.sent.mem_iff
      exact (h.spoken u a a (m.arrival _ hu).1).2
    · rw [m.inbox_ne ha, m.others a ha]
      refine (h.spread a hd).mem_sent_congr fun p hp => ?_
      rw [m.mem_sent, or_iff_left fun hn => ha (hp ▸ (hnew p hn).1)]
  case root =>
    intro u v x hp
    rcases m.mem_sent.1 hp with hp | hp
    · exact (h.root u v x hp).imp fun v' hv => m.mem_sent.2 (.inl hv)
    · exact h.new_root m hp
  case spoken =>
    intro u v z hp
    rcases m.mem_sent.1 hp with hp | hp
    · have hsaid := h.spoken u v z hp
      exact ⟨hsaid.1, fun v' hl => m.mem_sent.2 (.inl (hsaid.2 v' hl))⟩
    · exact h.new_spoken m hp
  case climbs =>
    exact fun x a u ha hup => h.moved_climbs m ha hup

end Sane

/-- Every command is a turn. -/
theorem Sane.moved_command (h : Sane T s) (hd : 0 < T.degree w) :
    Moved T s w none (((behaviour T).command w () (s.nodes w)).2.flatMap (T.packets w))
      (s.act T w ((behaviour T).command w () (s.nodes w))) where
  degree := hd
  turn := by
    rw [Overlay.nodes_act_self]
    exact start_turn (h.waves w hd).own hd
  others a ha := Overlay.nodes_act_ne s ha _
  sent := by rw [Overlay.sent_act]
  delivered := by simp
  arrival := by simp

theorem Sane.receive_turn (h : Sane T s) {p : Packet} (hp : p ∈ s.sent) :
    Turn T p.target (s.nodes p.target) (some p)
      ((behaviour T).receive p.target p (s.nodes p.target)).1
      (((behaviour T).receive p.target p (s.nodes p.target)).2.flatMap (T.packets p.target)) := by
  have hd := (h.degree_pos hp).2
  have hw := h.waves p.target hd
  generalize hu : p.source = u
  generalize hw' : p.target = w at hd hw ⊢
  obtain ⟨x, hx⟩ | ⟨z, hz⟩ := h.canonical p hp
  · rw [hu, hw'] at hx
    subst hx
    simp only [behaviour, content_token, sender_token]
    refine onToken_turn hw.own (fun hxw => ?_) fun y hy hne => ?_
    · subst hxw
      obtain ⟨v, hv⟩ := h.root u x x hp
      exact (hw.part x).bound v hv
    · obtain ⟨⟨v, hv⟩, hparent, -⟩ := hw.current y hy
      rw [hparent, if_neg hne]
      exact (hw.part y).source v hv hne
  · rw [hu, hw'] at hz
    subst hz
    simp only [behaviour, content_announcement]
    exact onLeader_turn hw.own

/-- Every arrival is a turn. -/
theorem Sane.moved_arrival (h : Sane T s) {front back : List Packet} {p : Packet}
    (hw : s.wire = front ++ p :: back) :
    Moved T s p.target (some p)
      (((behaviour T).receive p.target p (s.nodes p.target)).2.flatMap (T.packets p.target))
      ((s.arrived front p back).act T p.target
        ((behaviour T).receive p.target p (s.nodes p.target))) := by
  have hsent : p ∈ s.sent := List.mem_append_right _ (by simp [hw])
  constructor
  case degree => exact (h.degree_pos hsent).2
  case turn =>
    rw [Overlay.nodes_act_self]
    exact h.receive_turn hsent
  case others => exact fun a ha => Overlay.nodes_act_ne _ ha _
  case sent =>
    rw [Overlay.sent_act]
    exact (Overlay.perm_sent_arrived hw).append_right _
  case delivered => simp [Overlay.arrived]
  case arrival =>
    intro q hq
    obtain rfl : q = p := by simpa using hq.symm
    refine ⟨hsent, fun hdel => ?_⟩
    exact (List.nodup_append.1 h.once).2.2 q hdel q (by simp [hw]) rfl

/-- Every run on a graph without isolated servers is sane. -/
theorem run_sane (hd : ∀ a ∈ T.servers, 0 < T.degree a) (events : List (Event Unit)) :
    Sane T (atRest.run T (behaviour T) events) :=
  Overlay.run_invariant (fun _ a _ h ha _ => h.moved (h.moved_command (hd a ha)))
    (fun _ _ _ _ h hw _ => h.moved (h.moved_arrival hw)) sane_atRest (Overlay.admitted_true _ _)

end Election

end RelayMesh
