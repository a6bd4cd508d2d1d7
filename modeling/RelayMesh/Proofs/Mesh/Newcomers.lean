import RelayMesh.Proofs.Mesh.Answers

namespace RelayMesh

namespace Mesh

/-- The server `s` gets connected with `peers`, and announces itself. -/
def start (s : Id) (peers : List Id) : Move := .step (.at s (.start peers))

/-- The server `s` may get connected with `peers`, as it has no connections with them. -/
def Welcomes (m : Mesh) (s : Id) (peers : List Id) : Prop :=
  (m.station? s).isSome ∧ peers.Nodup ∧
    ∀ p ∈ peers, s ≠ p ∧ (m.station? p).isSome ∧ ¬ m.Linked s p

instance (m : Mesh) (s : Id) (peers : List Id) : Decidable (m.Welcomes s peers) :=
  -- only the listed servers are gone through, not all ids that there are
  have : Decidable (∀ p ∈ peers, s ≠ p ∧ (m.station? p).isSome ∧ ¬ m.Linked s p) :=
    List.decidableBAll _ peers
  inferInstanceAs (Decidable (_ ∧ _ ∧ _))

/-- A server starts, or a frame arrives. -/
def Evolves (m : Mesh) : Move → Prop
  | .deliver _ => True
  | .step (.at s (.start peers)) => m.Welcomes s peers
  | _ => False

instance (m : Mesh) : ∀ mv, Decidable (m.Evolves mv)
  | .deliver _ => .isTrue trivial
  | .step (.at s (.start peers)) => inferInstanceAs (Decidable (m.Welcomes s peers))
  | .join _ _ => .isFalse id
  | .step (.at _ (.command _)) => .isFalse id
  | .step (.at _ (.neighbour _ _ _)) => .isFalse id
  | .step (.at _ (.client _ _)) => .isFalse id
  | .step (.at _ (.frame _ _ _)) => .isFalse id
  | .step (.at _ (.closed _)) => .isFalse id
  | .step (.at _ (.unhold _)) => .isFalse id
  | .step (.at _ (.dropQueue _)) => .isFalse id
  | .step (.at _ (.closeLine _ _)) => .isFalse id
  | .step (.advance _) => .isFalse id
  | .step (.enable _) => .isFalse id
  | .step (.pick _) => .isFalse id
  | .step (.lose _) => .isFalse id
  | .step (.cut _ _) => .isFalse id

/-- A server starts, or a frame arrives, and no queue is full afterwards. -/
def Starts (m : Mesh) (mv : Move) : Prop := m.Evolves mv ∧ (m.effect mv).Roomy

instance (m : Mesh) (mv : Move) : Decidable (m.Starts mv) :=
  inferInstanceAs (Decidable (_ ∧ _))

/-- A new connection of `s` to each of the servers `peers`. -/
def joinAll (m : Mesh) (s : Id) (peers : List Id) : Mesh := peers.foldl (fun m p => m.join s p) m

variable {m : Mesh} {s d : Id} {peers servers : List Id} {config : Config} {mv : Move}
  {G : SimpleGraph Id}

theorem evolves_cases (h : m.Evolves mv) :
    (∃ place, mv = .deliver place) ∨ ∃ s peers, mv = start s peers ∧ m.Welcomes s peers := by
  unfold Evolves at h
  split at h
  · exact .inl ⟨_, rfl⟩
  · exact .inr ⟨_, _, rfl, h⟩
  · exact h.elim

/-- What every new connection preserves, all of them preserve. -/
theorem Sane.joinAll_induction {I : Mesh → Prop} (hm : m.Sane) (h : I m) (hw : m.Welcomes s peers)
    (join : ∀ m p sa sb, p ∈ peers → I m → m.Strangers s p sa sb → I (m.join s p)) :
    I (m.joinAll s peers) := by
  induction peers generalizing m with
  | nil => exact h
  | cons p peers ih =>
    obtain ⟨hs, hnodup, hpeers⟩ := hw
    obtain ⟨hne, hp, hno⟩ := hpeers p List.mem_cons_self
    obtain ⟨hnot, hrest⟩ := List.nodup_cons.1 hnodup
    obtain ⟨sa, hsa⟩ := Option.isSome_iff_exists.1 hs
    obtain ⟨sb, hsb⟩ := Option.isSome_iff_exists.1 hp
    have hab := hm.strangers hne hsa hsb hno
    refine ih (hm.join hab).sane (join m p sa sb List.mem_cons_self h hab)
      ⟨hab.isSome.2 hs, hrest, fun q hq => ?_⟩
      fun m q sa sb hq => join m q sa sb (List.mem_cons_of_mem p hq)
    obtain ⟨hneq, hsome, hfree⟩ := hpeers q (List.mem_cons_of_mem p hq)
    refine ⟨hneq, hab.isSome.2 hsome, fun hlinked => ?_⟩
    rcases hab.linked_join.1 hlinked with hold | ⟨-, rfl⟩ | ⟨rfl, -⟩
    · exact hfree hold
    · exact hnot hq
    · exact hne rfl

theorem effect_start (hw : m.Welcomes s peers) :
    m.effect (start s peers) = (m.joinAll s peers).effect (announcement s) := by
  obtain ⟨st, hs⟩ := Option.isSome_iff_exists.1 hw.1
  have heffect : m.effect (start s peers) = (m.joinAll s peers).updateServer s (·.announce) := by
    rw [start, effect_at hs]
    rfl
  rw [heffect, updateServer, update]
  cases hs' : (m.joinAll s peers).station? s with
  | none => rw [announcement, effect_at_none hs']
  | some st' => rw [effect_announcement hs']

/-- New connections leave everything as it is that was there before. -/
theorem Sane.joinAll (h : m.Sane) (hw : m.Welcomes s peers) :
    m.Grown (m.joinAll s peers) ∧ ∀ t, m.Pending t → (m.joinAll s peers).Pending t :=
  h.joinAll_induction (I := fun m' => m.Grown m' ∧ ∀ t, m.Pending t → m'.Pending t)
    ⟨⟨h, m.extends_refl⟩, fun _ ht => ht⟩ hw
    fun _ _ _ _ _ hi hab => ⟨hi.1.trans (hi.1.sane.join hab),
      fun t ht => hi.1.sane.pending_turn (.join hab) (hi.2 t ht)⟩

theorem Calm.joinAll (h : m.Calm servers config) (hw : m.Welcomes s peers) :
    (m.joinAll s peers).Calm servers config :=
  h.toSane.joinAll_induction (I := Calm servers config) h hw
    fun _ _ _ _ _ hi hab => hi.join_strangers hab

theorem Calm.exists_joinAll (h : m.Calm servers config) (hw : m.Welcomes s peers) :
    ∃ st, (m.joinAll s peers).station? s = some st :=
  Option.isSome_iff_exists.1 (((h.joinAll hw).members s).2 ((h.members s).1 hw.1))

/-- A server that starts does so on its own account, once it has its connections. -/
theorem Calm.announced (h : m.Calm servers config) (hw : m.Welcomes s peers) :
    Posts (fun _ _ => False) (m.joinAll s peers) (m.effect (start s peers)) ∧
      (m.effect (start s peers)).Calm servers config ∧
        (m.joinAll s peers).Still (m.effect (start s peers)) := by
  obtain ⟨st, hs⟩ := h.exists_joinAll hw
  rw [effect_start hw]
  exact ⟨posts_announcement hs, (h.joinAll hw).effect rfl⟩

/-- It leaves everything as it is that was there before. -/
theorem Calm.start (h : m.Calm servers config) (hw : m.Welcomes s peers) :
    (m.move (start s peers)).Calm servers config ∧ m.Extends (m.move (start s peers)) ∧
      ∀ t, m.Pending t → (m.move (start s peers)).Pending t := by
  obtain ⟨hgrown, hpending⟩ := h.toSane.joinAll hw
  obtain ⟨hposts, hcalm, -⟩ := h.announced hw
  refine ⟨hcalm.settle, ?_, fun t ht => ?_⟩
  · exact (hgrown.extended.trans hposts.alike.extended).trans hcalm.toSane.settle.extended
  · exact hcalm.toSane.pending_settle (hposts.pending_of_pending (hpending t ht))

/-- A server that starts leaves no route unanswered. -/
theorem Answered.start (h : m.Answered) (hc : m.Calm servers config) (hs : m.Sound)
    (hw : m.Welcomes s peers) :
    (m.move (Mesh.start s peers)).Sound ∧ (m.move (Mesh.start s peers)).Answered := by
  obtain ⟨hsound, hjoined⟩ := hc.toSane.joinAll_induction (I := fun m => m.Sound ∧ m.Answered)
    ⟨hs, h⟩ hw fun _ _ _ _ _ hi hab => ⟨hi.1.turn (.join hab), hi.2.join hi.1 hab⟩
  obtain ⟨hposts, hcalm, hstill⟩ := hc.announced hw
  have hsent : (m.effect (Mesh.start s peers)).Sound :=
    hsound.turn (.send hposts hstill.waiting hstill.hooks)
  have hanswered := hjoined.mono hsent hposts.alike.extended
    (fun _ => hposts.pending_of_pending) fun _ _ _ hk => .inl (hposts.alike.keepsRoutes.hops hk)
  exact ⟨hsent.settle, hanswered.settle hcalm hsent⟩

/-- Servers start and nothing else goes on, routes follow connections, and every route is answered. -/
structure Acquainted (servers : List Id) (config : Config) (m : Mesh) : Prop
    extends m.Calm servers config where
  sound : m.Sound
  answered : m.Answered

theorem Acquainted.move (h : m.Acquainted servers config) (ha : Ample servers config)
    (hmv : m.Starts mv) (ho : m.Onward mv) : (m.move mv).Acquainted servers config := by
  obtain ⟨hevolves, hroomy⟩ := hmv
  rcases evolves_cases hevolves with ⟨place, rfl⟩ | ⟨s, peers, rfl, hw⟩
  · obtain ⟨hcalm, -⟩ : (m.effect (.deliver place)).Calm servers config ∧ _ := h.toCalm.effect rfl
    have hsound : (m.effect (.deliver place)).Sound := h.sound.effect trivial ho
    have hanswered := h.answered.deliver h.toCalm h.sound ha ho hroomy
    exact ⟨hcalm.settle, hsound.settle, hanswered.settle hcalm hsound⟩
  · obtain ⟨hcalm, -⟩ := h.toCalm.start hw
    obtain ⟨hsound, hanswered⟩ := h.answered.start h.toCalm h.sound hw
    exact ⟨hcalm, hsound, hanswered⟩

end Mesh

end RelayMesh
