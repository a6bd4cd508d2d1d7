import RelayMesh.Proofs.Election.Completion
import RelayMesh.Proofs.Overlay.Order

namespace RelayMesh

namespace Election

open Overlay (Precedes KeepsOrder SameLink)

variable {T : Topology} {s s' : Overlay Election} {w u v x z : Id} {heard : Option Packet}
  {new : List Packet}

/-- A token with an announcement ahead of it makes an answer, and an own announcement, have one ahead
of it too. An announcement of `x` by others shows that `x` sent no other one before its own. -/
structure Ordered (s : Overlay Election) : Prop where
  left : ∀ x w v, x < w → token w v x ∈ s.sent → announcement w v w ∈ s.sent →
    Precedes s (announcement w v w) (token w v x)
  answers : ∀ x w u, x ≠ w → upstream (inbox s w) x = some u → token w u x ∈ s.sent →
    ∀ c z, Precedes s (announcement c w z) (token c w x) →
      ∃ z', Precedes s (announcement w u z') (token w u x)
  announces : ∀ x v, announcement x v x ∈ s.sent →
    ∀ c z, Precedes s (announcement c x z) (token c x x) →
      ∃ z', z' ≠ x ∧ Precedes s (announcement x v z') (announcement x v x)
  relays : ∀ x w v, w ≠ x → announcement w v x ∈ s.sent →
    ∃ v', announcement x v' x ∈ s.sent ∧
      ∀ z, z ≠ x → ¬ Precedes s (announcement x v' z) (announcement x v' x)

namespace Ordered

theorem moved_left (o : Ordered s) (h : Sane T s) (m : Moved T s w heard new s')
    (k : KeepsOrder s new s') {a : Id} (hx : x < a) (ht : token a v x ∈ s'.sent)
    (ha : announcement a v a ∈ s'.sent) : Precedes s' (announcement a v a) (token a v x) := by
  have hl : SameLink (announcement a v a) (token a v x) := ⟨rfl, rfl⟩
  have hne : x ≠ a := UInt32.ne_of_lt hx
  rcases m.mem_sent.1 ha with ha | ha
  · rcases m.mem_sent.1 ht with ht | ht
    · exact k.later hl (o.left x a v hx ht ha)
    · exact k.last hl ha ht
  · obtain rfl : a = w := (h.new_linked m _ ha).1
    obtain ⟨-, ⟨-, hc, b, hb⟩ | ⟨hne, -⟩⟩ := m.turn.of_announcement ha
    · rcases m.mem_sent.1 ht with ht | ht
      · -- A server that has joined the wave of `x` has left its own.
        obtain ⟨c, hc', hle⟩ := isOutbid_iff.1 (h.joined_isOutbid ⟨v, ht⟩)
        obtain rfl : a = c := by simpa [hc] using hc'
        exact absurd hx (UInt32.not_lt.2 hle)
      · rcases m.turn.of_token ht with ⟨-, rfl⟩ | ⟨-, -, b', hb'⟩
        · exact absurd rfl hne
        · obtain ⟨-, rfl⟩ : b = b' ∧ a = x := by simpa [hb] using hb'
          exact absurd rfl hne
    · exact absurd rfl hne

/-- A server that answers on a token has passed on what it had heard before. -/
theorem passed_of_precedes (h : Sane T s) (h' : Sane T s') (m : Moved T s w heard new s')
    (hheard : ∃ a, heard = some (token a w u)) (hc : token v w x ∈ s'.delivered)
    (hp : Precedes s' (announcement v w z) (token v w x)) :
    ∃ z', ∀ a, T.Linked w a → announcement w a z' ∈ s.sent := by
  obtain ⟨a, ha⟩ := hheard
  have hdel := Overlay.delivered_of_precedes h'.once hp hc
  rw [m.delivered, ha] at hdel
  have hin : announcement v w z ∈ inbox s w := by simpa using hdel
  have hspread := h.spread w m.degree
  exact hspread.passed (hspread.leaderEchoes_ne_zero hin)

theorem moved_answers (o : Ordered s) (h : Sane T s) (m : Moved T s w heard new s')
    (k : KeepsOrder s new s') {a : Id} (hx : x ≠ a) (hup : upstream (inbox s' a) x = some u)
    (ht : token a u x ∈ s'.sent) {c : Id} (hp : Precedes s' (announcement c a z) (token c a x)) :
    ∃ z', Precedes s' (announcement a u z') (token a u x) := by
  have h' := h.moved m
  have hl {b : Id} : SameLink (announcement a u b) (token a u x) := ⟨rfl, rfl⟩
  have hd : 0 < T.degree a := h'.joined_degree ⟨u, ht⟩
  have hca : T.Linked c a := h'.linked _ (List.Sublist.subset hp (by simp) : token c a x ∈ s'.sent)
  have hc : token c a x ∈ s'.delivered :=
    token_mem_inbox.1 (((h'.waves a hd).part x).echo u ht hx hup c hca.symm)
  rcases m.mem_sent.1 ht with ht | ht
  · have hold : upstream (inbox s a) x = some u := by
      rw [← hup, m.upstream_eq (((h.waves a hd).part x).source u ht hx)]
    have hmem := ((h.waves a hd).part x).echo u ht hx hold c hca.symm
    have hcs : token c a x ∉ new := fun hn =>
      h.new_notMem m _ hn (mem_sent_of_mem_delivered (token_mem_inbox.1 hmem))
    exact (o.answers x a u hx hold ht c z (k.earlier ⟨rfl, rfl⟩ hcs hp)).imp
      fun z' hz' => k.later hl hz'
  · obtain rfl : a = w := (h.new_linked m _ ht).1
    have hheard := (m.turn.of_token ht).resolve_left fun hs => hx hs.2
    obtain ⟨z', hz'⟩ := passed_of_precedes h h' m hheard.2.2 hc hp
    exact ⟨z', k.last hl (hz' u (h.new_linked m _ ht).2.1) ht⟩

theorem moved_announces (o : Ordered s) (h : Sane T s) (m : Moved T s w heard new s')
    (k : KeepsOrder s new s') (ha : announcement x v x ∈ s'.sent) {c : Id}
    (hp : Precedes s' (announcement c x z) (token c x x)) :
    ∃ z', z' ≠ x ∧ Precedes s' (announcement x v z') (announcement x v x) := by
  have h' := h.moved m
  have hl {b : Id} : SameLink (announcement x v b) (announcement x v x) := ⟨rfl, rfl⟩
  have hd : 0 < T.degree x := (h'.degree_pos ha).1
  have hcx : T.Linked c x := h'.linked _ (List.Sublist.subset hp (by simp) : token c x x ∈ s'.sent)
  have hc := token_mem_inbox.1 ((h'.waves x hd).announced v ha c hcx.symm)
  rcases m.mem_sent.1 ha with ha | ha
  · have hmem := (h.waves x hd).announced v ha c hcx.symm
    have hcs : token c x x ∉ new := fun hn =>
      h.new_notMem m _ hn (mem_sent_of_mem_delivered (token_mem_inbox.1 hmem))
    obtain ⟨z', hz, hz'⟩ := o.announces x v ha c z (k.earlier ⟨rfl, rfl⟩ hcs hp)
    exact ⟨z', hz, k.later hl hz'⟩
  · obtain rfl : x = w := (h.new_linked m _ ha).1
    obtain ⟨-, ⟨-, -, hheard⟩ | ⟨hne, -⟩⟩ := m.turn.of_announcement ha
    · obtain ⟨z', hz'⟩ := passed_of_precedes h h' m hheard hc hp
      have hsaid := hz' v (h.new_linked m _ ha).2.1
      refine ⟨z', ?_, k.last hl hsaid ha⟩
      rintro rfl
      exact h.new_notMem m _ ha hsaid
    · exact absurd rfl hne

theorem moved_relays (o : Ordered s) (h : Sane T s) (m : Moved T s w heard new s')
    (k : KeepsOrder s new s') {a : Id} (hx : a ≠ x) (ha : announcement a v x ∈ s'.sent) :
    ∃ v', announcement x v' x ∈ s'.sent ∧
      ∀ z, z ≠ x → ¬ Precedes s' (announcement x v' z) (announcement x v' x) := by
  have keep (hr : ∃ v', announcement x v' x ∈ s.sent ∧
      ∀ z, z ≠ x → ¬ Precedes s (announcement x v' z) (announcement x v' x)) :
      ∃ v', announcement x v' x ∈ s'.sent ∧
        ∀ z, z ≠ x → ¬ Precedes s' (announcement x v' z) (announcement x v' x) := by
    obtain ⟨v', hv', hclean⟩ := hr
    refine ⟨v', m.mem_sent.2 (.inl hv'), fun z hz hp => hclean z hz ?_⟩
    exact k.earlier ⟨rfl, rfl⟩ (fun hn => h.new_notMem m _ hn hv') hp
  rcases m.mem_sent.1 ha with ha | ha
  · exact keep (o.relays x a v hx ha)
  · obtain rfl : a = w := (h.new_linked m _ ha).1
    obtain ⟨-, ⟨rfl, -⟩ | ⟨-, hzero, b, hb⟩⟩ := m.turn.of_announcement ha
    · exact absurd rfl hx
    · have hsent := (m.arrival _ hb).1
      by_cases hbx : b = x
      · -- The first announcement that has come from `x` is its own.
        subst hbx
        refine ⟨a, m.mem_sent.2 (.inl hsent), fun z hz hp => ?_⟩
        have hdel := Overlay.delivered_of_precedes (h.moved m).once hp (by simp [m.delivered, hb])
        have hin : announcement b a z ∈ inbox s a := by
          simpa [m.delivered, hb, hz] using hdel
        exact (h.spread a m.degree).leaderEchoes_ne_zero hin hzero
      · exact keep (o.relays x b a hbx hsent)

theorem moved (o : Ordered s) (h : Sane T s) (m : Moved T s w heard new s')
    (k : KeepsOrder s new s') : Ordered s' where
  left _ _ _ hx ht ha := o.moved_left h m k hx ht ha
  answers _ _ _ hx hup ht _ _ hp := o.moved_answers h m k hx hup ht hp
  announces _ _ ha _ _ hp := o.moved_announces h m k ha hp
  relays _ _ _ hx ha := o.moved_relays h m k hx ha

/-- An announcement ahead of a token on its way up is ahead of the root's own one in the end. -/
theorem overtaken_of_precedes (o : Ordered s) (h : Sane T s) (hT : T.Connected)
    (hv : announcement x v x ∈ s.sent) (hl : T.Linked w u)
    (hp : Precedes s (announcement w u z) (token w u x)) :
    ∃ z', z' ≠ x ∧ Precedes s (announcement x v z') (announcement x v x) := by
  induction hr : rank s x u using Nat.strongRecOn generalizing w u z with
  | ind r ih =>
    subst hr
    by_cases hx : x = u
    · subst hx
      exact o.announces x v hv w z hp
    · have hj := (h.complete hT hv u hl.target_mem).1
      obtain ⟨a, hup, hla, -, hrank⟩ := h.exists_upstream hj hx
      have hback := (h.complete hT hv a hla.source_mem).2 u hla
      obtain ⟨z', hz'⟩ := o.answers x u a hx hup (mem_sent_of_mem_delivered hback) w z hp
      exact ih _ hrank hla.symm hz' rfl

/-- If a larger wave has come back too, the smaller one does so behind an announcement. -/
theorem overtaken (o : Ordered s) (h : Sane T s) (hT : T.Connected) {y : Id} (hlt : x < y)
    (hv : announcement x v x ∈ s.sent) (hu : announcement y u y ∈ s.sent) :
    ∃ z, z ≠ x ∧ Precedes s (announcement x v z) (announcement x v x) := by
  have hy := (h.linked _ hu).source_mem
  have hj := (h.complete hT hv y hy).1
  obtain ⟨a, -, hla, -, -⟩ := h.exists_upstream hj (UInt32.ne_of_lt hlt)
  have hback := (h.complete hT hv a hla.source_mem).2 y hla
  have hfirst := o.left x y a hlt (mem_sent_of_mem_delivered hback)
    ((h.spoken y u y hu).2 a hla.symm)
  exact o.overtaken_of_precedes h hT hv hla.symm hfirst

/-- A leader has heard of itself, and no other announcement was ahead of its own. -/
theorem announced_of_leader (o : Ordered s) (h : Sane T s) (hd : 0 < T.degree w)
    (hw : (s.nodes w).status = .leader) :
    ∃ v, announcement w v w ∈ s.sent ∧
      ∀ z, z ≠ w → ¬ Precedes s (announcement w v z) (announcement w v w) := by
  have hspread := h.spread w hd
  obtain ⟨u, z, hu, hstatus⟩ := hspread.verdict (hspread.leader hw)
  have hz : z = w := by
    rw [hw] at hstatus
    by_contra hne
    simp [hne] at hstatus
  subst hz
  have hsent := mem_sent_of_mem_delivered (announcement_mem_inbox.1 hu)
  exact o.relays z u z (h.linked _ hsent).ne hsent

theorem eq_of_leader (o : Ordered s) (h : Sane T s) (hT : T.Connected) (hu : 0 < T.degree u)
    (hw : 0 < T.degree w) (hlu : (s.nodes u).status = .leader)
    (hlw : (s.nodes w).status = .leader) : u = w := by
  obtain ⟨a, ha, hclean⟩ := o.announced_of_leader h hu hlu
  obtain ⟨b, hb, hclean'⟩ := o.announced_of_leader h hw hlw
  by_contra hne
  rcases UInt32.le_total u w with hle | hle
  · obtain ⟨z, hz, hp⟩ := o.overtaken h hT (UInt32.lt_of_le_of_ne hle hne) ha hb
    exact hclean z hz hp
  · obtain ⟨z, hz, hp⟩ := o.overtaken h hT (UInt32.lt_of_le_of_ne hle (Ne.symm hne)) hb ha
    exact hclean' z hz hp

end Ordered

/-- A leader stays one: it starts nothing any more, and it has had its last verdict. -/
theorem Sane.leader_moved (h : Sane T s) (m : Moved T s w heard new s') {a : Id}
    (ha : 0 < T.degree a) (hl : (s.nodes a).status = .leader) : (s'.nodes a).status = .leader := by
  by_cases haw : a = w
  · subst haw
    have hfull := (h.spread a ha).leader hl
    have t := m.turn
    generalize s'.nodes a = e' at t
    cases t with
    | idle hi => exact hl
    | start hw ho =>
      obtain ⟨_, _, _, hz⟩ := (h.spread a ha).heard (by omega)
      rw [hw] at hz
      exact absurd hz (by simp)
    | pass u x c hc hlt => exact hl
    | join u x ho hx => exact hl
    | count u x hc hd => exact hl
    | echo u x v hc hd hx hp => exact hl
    | announce u hc hd => exact hl
    | lead u z => rwa [status_onLeader, if_neg (by omega)]
  · rw [m.others a haw]
    exact hl

end Election

end RelayMesh
