import RelayMesh.Proofs.Election.Leading
import RelayMesh.Proofs.Exclusion.Progress

namespace RelayMesh

namespace Server

/-- What the servers know of requests and the token. -/
def exclusions (s : Overlay Server) : Overlay Exclusion :=
  s.part Server.exclusion Content.isExclusion

/-- Only `m` can be the leader, and the messages of the election are for servers of the graph. -/
structure Tame (T : Topology) (m : Id) (s : Overlay Server) : Prop where
  sole : ∀ a ∈ T.servers, (s.nodes a).election.status = .leader → a = m
  targets : ∀ p ∈ s.wire, p.msg.content.isElection = true → p.target ∈ T.servers

/-- What the servers do with requests and the token is a run of a pool in which `m` makes it. -/
structure Pooled (T : Topology) (m : Id) (s : Overlay Server) : Prop extends Lawful T s where
  pool : ∃ events : List Exclusion.Pool.Event,
    Exclusion.Mirrors T (exclusions s) (Exclusion.Pool.run T.servers.toFinset m events)

variable {T : Topology} {s s' t : Overlay Server} {a b m : Id} {heard : Option Message}
  {r : Server × List Outgoing} {front back : List Packet} {p : Packet}

theorem Fresh.pooled (h : Fresh T s) (m : Id) : Pooled T m s where
  toLawful := h.lawful
  pool := by
    have hsame : exclusions s = Exclusion.atRest := by
      simp [exclusions, Overlay.part, Exclusion.atRest, h.wire, h.delivered, h.exclusion]
    exact ⟨[], hsame ▸ Exclusion.mirrors_start⟩

/-- What the pool has done before, and what it does now. -/
theorem Pooled.later (h : Pooled T m s) (hlaw : Lawful T s')
    (hpool : ∀ pool, Exclusion.Mirrors T (exclusions s) pool → ∃ later : List Exclusion.Pool.Event,
      Exclusion.Mirrors T (exclusions s')
        (later.foldl (Exclusion.Pool.step T.servers.toFinset m) pool)) : Pooled T m s' where
  toLawful := hlaw
  pool := by
    obtain ⟨events, hmirrors⟩ := h.pool
    obtain ⟨later, hlater⟩ := hpool _ hmirrors
    exact ⟨events ++ later, by rwa [Exclusion.Pool.run, List.foldl_append]⟩

/-- What is not about mutual exclusion leaves it where it is. -/
theorem Pooled.aside (h : Pooled T m s) (ht : exclusions t = exclusions s)
    (hnodes : t.nodes = s.nodes) {x : Server} {sends : List Outgoing}
    (hlaw : Lawful T (t.act T a (x, sends))) (hx : x.exclusion = (s.nodes a).exclusion)
    (hs : ∀ o ∈ sends, o.message.content.isExclusion = false) :
    Pooled T m (t.act T a (x, sends)) := by
  have hkept : x.exclusion = (t.nodes a).exclusion := by rw [hx, hnodes]
  have hsame : exclusions (t.act T a (x, sends)) = exclusions s :=
    (Overlay.part_act_of_not hkept hs).trans ht
  exact h.later hlaw fun pool hmirrors => ⟨[], hsame ▸ hmirrors⟩

/-- A server that gets to be the leader makes the token, and any other step of the election leaves
the token where it is. -/
theorem Pooled.elected (h : Pooled T m s) (ht : exclusions t = exclusions s)
    (hnodes : t.nodes = s.nodes) (ha : a ∈ T.servers) {step : Election × List Outgoing}
    (hlaw : Lawful T (t.act T a ((s.nodes a).applyElection step, (s.nodes a).electionSends step)))
    (hs : ∀ o ∈ step.2, o.IsElection) (hm : step.1.status = .leader → a = m) :
    Pooled T m (t.act T a ((s.nodes a).applyElection step, (s.nodes a).electionSends step)) := by
  by_cases hl : step.1.isLeader
  · obtain rfl : a = m := hm (by simpa [Election.isLeader] using hl)
    refine h.later hlaw fun pool hmirrors => ?_
    have hcommand : (Exclusion.behaviour a).command a .mint ((exclusions s).nodes a) =
        ((s.nodes a).exclusion.mint.1, (s.nodes a).exclusion.mint.2.sends) :=
      if_neg fun hother => hother.2 rfl
    have hmint : exclusions
        (t.act T a ((s.nodes a).applyElection step, (s.nodes a).electionSends step)) =
          (exclusions s).act T a
            ((Exclusion.behaviour a).command a .mint ((exclusions s).nodes a)) := by
      rw [hcommand, ← ht, exclusions, Overlay.part_act, filter_isExclusion hs, if_pos hl,
        exclusion_applyElection, if_pos hl]
      rfl
    rw [hmint]
    exact hmirrors.command ha .mint
  · have hsends : ∀ o ∈ (s.nodes a).electionSends step, o.message.content.isExclusion = false := by
      intro o ho
      rw [electionSends, if_neg hl, List.append_nil] at ho
      exact Content.isExclusion_eq_false (hs o ho)
    exact h.aside ht hnodes hlaw (by rw [exclusion_applyElection, if_neg hl]) hsends

theorem Pooled.command (h : Pooled T m s) (ha : a ∈ T.servers) (trigger : Trigger)
    (hafter : Tame T m (s.act T a (behaviour.command a trigger (s.nodes a)))) :
    Pooled T m (s.act T a (behaviour.command a trigger (s.nodes a))) := by
  have hlaw := h.toLawful.command a trigger
  have hdoes := does_command a trigger (s.nodes a)
  have hsole := hafter.sole a ha
  rw [Overlay.nodes_act_self] at hsole
  generalize behaviour.command a trigger (s.nodes a) = r at hlaw hdoes hsole
  cases hdoes with
  | start =>
    refine h.elected rfl rfl ha hlaw (Election.isElection_start _ _) fun hl => hsole ?_
    rwa [startElection, election_applyElection]
  | obey what hwhat x aside hx =>
    refine h.later hlaw fun pool hmirrors => ?_
    have hobey : exclusions (s.act T a (x, ((s.nodes a).exclusion.obey what).2)) =
        (exclusions s).act T a
          ((Exclusion.behaviour m).command a what ((exclusions s).nodes a)) := by
      have hcommand : (Exclusion.behaviour m).command a what ((exclusions s).nodes a) =
          (s.nodes a).exclusion.obey what := if_neg fun hmint => hwhat hmint.1
      rw [hcommand, exclusions, Overlay.part_act, hx,
        List.filter_eq_self.2 (Exclusion.obey_tells _ what).isExclusion]
      rfl
    rw [hobey]
    exact hmirrors.command ha what
  | other _ x sends aside hx hheard hs =>
    exact h.aside rfl rfl hlaw hx fun o ho => (hs o ho).2

theorem Pooled.arrival (h : Pooled T m s) (hw : s.wire = front ++ p :: back) (hbefore : Tame T m s)
    (hafter : Tame T m ((s.arrived front p back).act T p.target
      (behaviour.receive p.target p (s.nodes p.target)))) :
    Pooled T m ((s.arrived front p back).act T p.target
      (behaviour.receive p.target p (s.nodes p.target))) := by
  have hlaw := h.toLawful.arrival hw
  have hdoes := h.toLawful.does_arrival hw
  have hsole := hafter.sole p.target
  rw [Overlay.nodes_act_self] at hsole
  generalize hmsg : some p.msg = heard at hdoes
  generalize behaviour.receive p.target p (s.nodes p.target) = r at hlaw hdoes hsole
  cases hdoes with
  | start => cases hmsg
  | obey what hwhat x aside hx => cases hmsg
  | vote msg hc =>
    obtain rfl : p.msg = msg := Option.some.inj hmsg
    have ha := hbefore.targets p (by simp [hw]) hc
    refine h.elected (Overlay.part_arrived_of_not hw (Content.isExclusion_eq_false hc)) rfl ha hlaw
      (isElection_electionStep _ _) fun hl => hsole ha ?_
    rwa [election_applyElection]
  | serve msg hc x aside hx =>
    obtain rfl : p.msg = msg := Option.some.inj hmsg
    refine h.later hlaw fun pool hmirrors => ?_
    have hserve : exclusions ((s.arrived front p back).act T p.target
        (x, ((s.nodes p.target).exclusion.receive p.msg).2)) =
          ((exclusions s).arrived (front.filter (·.msg.content.isExclusion)) p
            (back.filter (·.msg.content.isExclusion))).act T p.target
              (((exclusions s).nodes p.target).receive p.msg) := by
      rw [exclusions, Overlay.part_act, Overlay.part_arrived hc, hx,
        List.filter_eq_self.2 (Exclusion.receive_tells _ p.msg).isExclusion]
      rfl
    rw [hserve]
    exact hmirrors.arrival (Overlay.wire_part hw hc)
  | other _ x sends aside hx hheard hs =>
    subst hmsg
    exact h.aside (Overlay.part_arrived_of_not hw (hheard p.msg rfl).2) rfl hlaw hx
      fun o ho => (hs o ho).2

/-- As long as only `m` can be the leader, the token is that of a pool. -/
theorem run_pooled (h : Pooled T m s) (ht : Tame T m s) {events : List (Event Trigger)}
    (he : Overlay.Admitted T behaviour
      (fun s e => Tame T m s ∧ Tame T m (s.step T behaviour e)) s events) :
    Pooled T m (s.run T behaviour events) ∧ Tame T m (s.run T behaviour events) := by
  refine Overlay.run_invariant (I := fun s => Pooled T m s ∧ Tame T m s)
    (fun s a trigger h ha hr => ?_) (fun s front p back h hw hr => ?_) ⟨h, ht⟩ he
  · have hstep : s.step T behaviour (.command a trigger) =
        s.act T a (behaviour.command a trigger (s.nodes a)) := if_pos ha
    rw [hstep] at hr
    exact ⟨h.1.command ha trigger hr.2, hr.2⟩
  · rw [Overlay.step_deliver hw] at hr
    exact ⟨h.1.arrival hw hr.1 hr.2, hr.2⟩

/-- In a graph with several servers, the one that is the leader in the end is the only one that ever
was. -/
theorem Steady.tame (hd : ∀ a ∈ T.servers, 0 < T.degree a) (h : Steady T s)
    {events : List (Event Trigger)}
    (he : Overlay.Admitted T behaviour (Overlay.InOrderAbout Content.isElection) s events)
    (hm : ∀ a ∈ T.servers,
      ((s.run T behaviour events).nodes a).election.status = .leader → a = m) :
    Overlay.Admitted T behaviour
      (fun s e => Tame T m s ∧ Tame T m (s.step T behaviour e)) s events := by
  have tame : ∀ {t later}, Steady T t →
      Overlay.Admitted T behaviour (Overlay.InOrderAbout Content.isElection) t later →
        (∀ a ∈ T.servers, ((t.run T behaviour later).nodes a).election.status = .leader → a = m) →
          Tame T m t := fun ht hl hend =>
    ⟨fun a ha hlead => hend a ha ((run_onward hd ht hl).leader a ha hlead),
      fun p hp hc => (ht.sane.linked p (List.mem_append_right _
        (List.mem_filter.2 ⟨hp, hc⟩))).target_mem⟩
  induction events generalizing s with
  | nil => trivial
  | cons e events ih =>
    have hfirst : Overlay.Admitted T behaviour (Overlay.InOrderAbout Content.isElection) s [e] :=
      ⟨he.1, trivial⟩
    have hnext : Steady T (s.step T behaviour e) := (run_onward hd h hfirst).steady
    exact ⟨⟨tame h he hm, tame hnext he.2 hm⟩, ih hnext he.2 hm⟩

/-- The only server there is has nobody to hold an election with. -/
structure Alone (T : Topology) (m : Id) (s : Overlay Server) : Prop extends Lawful T s where
  sole : ∀ a ∈ T.servers, a = m ∧ T.degree a = 0
  silent : ∀ p ∈ s.wire, p.msg.content.isElection = false

theorem Alone.tame (h : Alone T m s) : Tame T m s :=
  ⟨fun a ha _ => (h.sole a ha).1, fun p hp hc => by simp [h.silent p hp] at hc⟩

theorem Alone.act (h : Alone T m s) (hlaw : Lawful T (t.act T a r)) (ht : ∀ q ∈ t.wire, q ∈ s.wire)
    (hs : ∀ o ∈ r.2, o.message.content.isElection = false) : Alone T m (t.act T a r) where
  toLawful := hlaw
  sole := h.sole
  silent q hq := by
    rcases List.mem_append.1 hq with hold | hnew
    · exact h.silent q (ht q hold)
    · obtain ⟨o, ho, hpacket⟩ := List.mem_flatMap.1 hnew
      rw [(Topology.content_of_mem_packets hpacket).2]
      exact hs o ho

theorem Alone.command (h : Alone T m s) (ha : a ∈ T.servers) (trigger : Trigger) :
    Alone T m (s.act T a (behaviour.command a trigger (s.nodes a))) := by
  have hlaw := h.toLawful.command a trigger
  have hdoes := does_command a trigger (s.nodes a)
  generalize behaviour.command a trigger (s.nodes a) = r at hlaw hdoes
  refine h.act hlaw (fun _ hq => hq) fun o ho => ?_
  cases hdoes with
  | start =>
    have hnone : ((s.nodes a).election.start (s.nodes a).neighbourCount).2 = [] := by
      rw [h.degrees a ha, (h.sole a ha).2]
      unfold Election.start
      split <;> rfl
    rw [electionSends, hnone, List.nil_append] at ho
    split at ho
    · exact Content.isElection_eq_false (isExclusion_mint _ o ho)
    · simp at ho
  | obey what hwhat x aside hx =>
    exact Content.isElection_eq_false ((Exclusion.obey_tells _ what).isExclusion o ho)
  | other _ x sends aside hx hheard hs => exact (hs o ho).1

theorem Alone.arrival (h : Alone T m s) (hw : s.wire = front ++ p :: back) :
    Alone T m ((s.arrived front p back).act T p.target
      (behaviour.receive p.target p (s.nodes p.target))) := by
  have hlaw := h.toLawful.arrival hw
  have hdoes := h.toLawful.does_arrival hw
  have hsilent := h.silent p (by simp [hw])
  generalize hmsg : some p.msg = heard at hdoes
  generalize behaviour.receive p.target p (s.nodes p.target) = r at hlaw hdoes
  refine h.act hlaw (mem_wire_of_arrived hw) fun o ho => ?_
  cases hdoes with
  | start => cases hmsg
  | obey what hwhat x aside hx => cases hmsg
  | vote msg hc =>
    obtain rfl : p.msg = msg := Option.some.inj hmsg
    rw [hsilent] at hc
    cases hc
  | serve msg hc x aside hx =>
    exact Content.isElection_eq_false ((Exclusion.receive_tells _ msg).isExclusion o ho)
  | other _ x sends aside hx hheard hs => exact (hs o ho).1

theorem Alone.step (h : Alone T m s) (e : Event Trigger) : Alone T m (s.step T behaviour e) := by
  have hone : Overlay.Admitted T behaviour (fun _ _ => True) s [e] := ⟨trivial, trivial⟩
  exact Overlay.run_invariant (I := Alone T m) (fun _ _ trigger h ha _ => h.command ha trigger)
    (fun _ _ _ _ h hw _ => h.arrival hw) h hone

theorem Alone.admitted (h : Alone T m s) (events : List (Event Trigger)) :
    Overlay.Admitted T behaviour
      (fun s e => Tame T m s ∧ Tame T m (s.step T behaviour e)) s events := by
  induction events generalizing s with
  | nil => trivial
  | cons e events ih => exact ⟨⟨h.tame, (h.step e).tame⟩, ih (h.step e)⟩

theorem Fresh.tame (h : Fresh T s) (m : Id) : Tame T m s :=
  ⟨fun a ha hl => by simp [h.election a ha] at hl, fun p hp => by simp [h.wire] at hp⟩

/-- In every run there is one server that can be the leader. -/
theorem Fresh.exists_tame (hT : T.Connected) (hs : Fresh T s) {events : List (Event Trigger)}
    (he : Overlay.Admitted T behaviour (Overlay.InOrderAbout Content.isElection) s events) :
    ∃ m, Overlay.Admitted T behaviour
      (fun s e => Tame T m s ∧ Tame T m (s.step T behaviour e)) s events := by
  by_cases hd : ∀ a ∈ T.servers, 0 < T.degree a
  · have hend := (run_onward hd hs.steady he).steady
    by_cases hl : ∃ m ∈ T.servers, ((s.run T behaviour events).nodes m).election.status = .leader
    · obtain ⟨m, hm, hlead⟩ := hl
      exact ⟨m, hs.steady.tame hd he fun a ha hla => hend.eq_of_leader hT hd ha hm hla hlead⟩
    · exact ⟨0, hs.steady.tame hd he fun a ha hla => absurd ⟨a, ha, hla⟩ hl⟩
  · -- A server without neighbours is alone.
    push Not at hd
    obtain ⟨m, hm, hzero⟩ := hd
    have hsole : ∀ a ∈ T.servers, a = m ∧ T.degree a = 0 := fun a ha => by
      obtain rfl : a = m := by
        by_contra hne
        have := hT.degree_pos_of_ne hm ha (Ne.symm hne)
        omega
      exact ⟨rfl, by omega⟩
    have halone : Alone T m s := ⟨hs.lawful, hsole, fun p hp => by simp [hs.wire] at hp⟩
    exact ⟨m, halone.admitted events⟩

/-- How many tokens there are, at servers and on their way. -/
def tokens (T : Topology) (s : Overlay Server) : Nat :=
  (T.servers.toFinset.filter fun a => (s.nodes a).exclusion.token.isSome).card +
    s.wire.countP (·.msg.content.kind = .mutexToken)

/-- How many tokens come to be in a run: in each event, as many as there are more after it. -/
def made (T : Topology) (s : Overlay Server) : List (Event Trigger) → Nat
  | [] => 0
  | e :: events =>
    let s' := s.step T behaviour e
    tokens T s' - tokens T s + made T s' events

theorem isSome_carried? (p : Packet) :
    (Exclusion.carried? p).isSome = decide (p.msg.content.kind = .mutexToken) := by
  unfold Exclusion.carried?
  cases p.msg.content <;> rfl

/-- The tokens of the servers are those of the pool. -/
theorem tokens_eq {pool : Exclusion.Pool} (h : Exclusion.Mirrors T (exclusions s) pool) :
    tokens T s = pool.tokens T.servers.toFinset := by
  have hflight : pool.flight.length = s.wire.countP (·.msg.content.kind = .mutexToken) := by
    rw [← List.length_map, h.flight, List.length_filterMap_eq_countP, exclusions, Overlay.part,
      List.countP_filter]
    congr 1
    funext p
    rw [isSome_carried?]
    cases p.msg.content <;> rfl
  rw [tokens, Exclusion.Pool.tokens, hflight, h.nodes, Finset.card_filter]
  rfl

/-- There is one token once `m` has made it, and none before. -/
theorem Pooled.tokens_eq (h : Pooled T m s) :
    tokens T s = if (s.nodes m).exclusion.minted then 1 else 0 := by
  obtain ⟨events, hmirrors⟩ := h.pool
  have hsound : Exclusion.Pool.Sound T.servers.toFinset m (Exclusion.Pool.run _ m events) :=
    Exclusion.Pool.run_sound events
  have haccounted := hsound.accounted
  rwa [Exclusion.Pool.Accounted, ← Server.tokens_eq hmirrors, hmirrors.nodes] at haccounted

theorem Lawful.minted_act (hnodes : t.nodes = s.nodes) (hr : (s.nodes a).Does heard r)
    (hm : (s.nodes b).exclusion.minted = true) :
    ((t.act T a r).nodes b).exclusion.minted = true := by
  rw [Overlay.nodes_act, hnodes]
  split
  next hba =>
    subst hba
    exact hr.minted_of_minted hm
  next => exact hm

/-- Whatever happens, a server that has made the token knows that. -/
theorem Lawful.run_minted (h : Lawful T s) (hm : (s.nodes b).exclusion.minted = true)
    (events : List (Event Trigger)) :
    ((s.run T behaviour events).nodes b).exclusion.minted = true :=
  (Overlay.run_invariant (I := fun s => Lawful T s ∧ (s.nodes b).exclusion.minted = true)
    (fun _ a trigger h _ _ =>
      ⟨h.1.command a trigger, Lawful.minted_act rfl (does_command a trigger _) h.2⟩)
    (fun _ _ _ _ h hw _ => ⟨h.1.arrival hw, Lawful.minted_act rfl (h.1.does_arrival hw) h.2⟩)
    ⟨h, hm⟩ (Overlay.admitted_true s events)).2

/-- All tokens that come to be stay, and there is one at most. -/
theorem Pooled.made_add_tokens (h : Pooled T m s) (ht : Tame T m s) {events : List (Event Trigger)}
    (he : Overlay.Admitted T behaviour
      (fun s e => Tame T m s ∧ Tame T m (s.step T behaviour e)) s events) :
    made T s events + tokens T s = tokens T (s.run T behaviour events) := by
  induction events generalizing s with
  | nil => simp [made, Overlay.run]
  | cons e events ih =>
    have hone : Overlay.Admitted T behaviour
        (fun s e => Tame T m s ∧ Tame T m (s.step T behaviour e)) s [e] := ⟨he.1, trivial⟩
    obtain ⟨hnext, htame⟩ : Pooled T m (s.step T behaviour e) ∧ Tame T m (s.step T behaviour e) :=
      run_pooled h ht hone
    have hgrows : tokens T s ≤ tokens T (s.step T behaviour e) := by
      rw [h.tokens_eq, hnext.tokens_eq]
      by_cases hm : (s.nodes m).exclusion.minted = true
      · have hkept : ((s.step T behaviour e).nodes m).exclusion.minted = true :=
          h.toLawful.run_minted hm [e]
        rw [if_pos hm, if_pos hkept]
      · rw [if_neg hm]
        exact Nat.zero_le _
    have hrest := ih hnext htame he.2
    have hrun : s.run T behaviour (e :: events) = (s.step T behaviour e).run T behaviour events :=
      rfl
    rw [made, hrun, ← hrest]
    omega

/-- Whatever happens, servers put into their queues what they send, and nothing else. -/
theorem carriesOut_step (s : Overlay Server) (e : Event Trigger) (b : Id) :
    (s.nodes b).CarriesOut (((s.sends T behaviour e).filter (·.1 = b)).map (·.2))
      ((s.step T behaviour e).nodes b) := by
  have key : ∀ (t : Overlay Server) (a : Id) (r : Server × List Outgoing), t.nodes = s.nodes →
      (s.nodes a).CarriesOut r.2 r.1 →
        (s.nodes b).CarriesOut (((r.2.map (a, ·)).filter (·.1 = b)).map (·.2))
          ((t.act T a r).nodes b) := by
    intro t a r hnodes hr
    rw [Overlay.nodes_act, hnodes]
    split
    next hba =>
      subst hba
      have hall : ((r.2.map (b, ·)).filter (·.1 = b)).map (·.2) = r.2 := by
        rw [List.filter_eq_self.2 (by simp), List.map_map]
        exact List.map_id _
      rwa [hall]
    next hba =>
      have hnone : (r.2.map (a, ·)).filter (·.1 = b) = [] :=
        List.filter_eq_nil_iff.2 (by simp [Ne.symm hba])
      rw [hnone]
      exact (s.nodes b).carriesOut_refl
  cases e with
  | command a trigger =>
    simp only [Overlay.step, Overlay.sends]
    split
    · exact key s a _ rfl (carriesOut_command a trigger _)
    · exact (s.nodes b).carriesOut_refl
  | deliver place =>
    simp only [Overlay.step, Overlay.sends]
    split
    · exact (s.nodes b).carriesOut_refl
    next p hp => exact key _ p.target _ rfl (carriesOut_turn _ _ _)

/-- On links that keep the order of the election's messages, at most one server is ever a leader. At
most one token comes to be, it stays for good, and as soon as there is a leader it is there. What
servers send is what they put into their queues. -/
theorem atMostOne_leader (T : Topology) (hT : T.Connected) {s : Overlay Server} (hs : Fresh T s)
    (events later : List (Event Trigger))
    (he : Overlay.Admitted T behaviour (Overlay.InOrderAbout Content.isElection) s
      (events ++ later)) :
    let before := s.run T behaviour events
    let after := s.run T behaviour (events ++ later)
    (∀ a ∈ T.servers, ∀ b ∈ T.servers, (before.nodes a).election.status = .leader →
      (after.nodes b).election.status = .leader → a = b) ∧
    made T s (events ++ later) ≤ 1 ∧ tokens T after = made T s (events ++ later) ∧
    (∀ a ∈ T.servers, (before.nodes a).election.status = .leader → made T s events = 1) ∧
    ∀ e b, (after.nodes b).CarriesOut (((after.sends T behaviour e).filter (·.1 = b)).map (·.2))
      ((after.step T behaviour e).nodes b) := by
  intro before after
  obtain ⟨m, hadmitted⟩ := hs.exists_tame hT he
  obtain ⟨hfirst, -⟩ := Overlay.admitted_append.1 hadmitted
  obtain ⟨hbefore, htbefore⟩ := run_pooled (hs.pooled m) (hs.tame m) hfirst
  obtain ⟨hafter, htafter⟩ := run_pooled (hs.pooled m) (hs.tame m) hadmitted
  have hzero : tokens T s = 0 := by
    rw [(hs.pooled m).tokens_eq, hs.exclusion m]
    rfl
  have hmade : made T s (events ++ later) = tokens T after := by
    have hall := (hs.pooled m).made_add_tokens (hs.tame m) hadmitted
    rwa [hzero, Nat.add_zero] at hall
  refine ⟨fun a ha b hb hla hlb => (htbefore.sole a ha hla).trans (htafter.sole b hb hlb).symm, ?_,
    hmade.symm, fun a ha hl => ?_, carriesOut_step after⟩
  · rw [hmade, hafter.tokens_eq]
    split <;> omega
  · have hthen := (hs.pooled m).made_add_tokens (hs.tame m) hfirst
    obtain rfl := htbefore.sole a ha hl
    rw [hzero, Nat.add_zero, hbefore.tokens_eq, if_pos (hbefore.minted a ha hl)] at hthen
    exact hthen

/-- New servers that are connected to their neighbours. -/
def assembly (T : Topology) : Overlay Server where
  nodes a := (T.neighbours a).foldl (fun s v => s.addNeighbour v v.toNat) (.new a {})

theorem exclusion_assembly (T : Topology) (a : Id) :
    ((assembly T).nodes a).exclusion = { own := a } := by
  have key : ∀ (peers : List Id) (s : Server),
      (peers.foldl (fun s v => s.addNeighbour v v.toNat) s).exclusion = s.exclusion := by
    intro peers
    induction peers with
    | nil => exact fun _ => rfl
    | cons v peers ih => exact fun s => ih (s.addNeighbour v v.toNat)
  exact key _ _

theorem fresh_assembly : Fresh .row (assembly .row) :=
  ⟨rfl, rfl, Topology.forall_servers (by decide), exclusion_assembly .row,
    Topology.forall_servers (by decide)⟩

/-- Server 1 starts a wave when it has answered to the one of server 3, so that both come back. -/
def rivals : List (Event Trigger) :=
  [.command 3 .elect, .deliver 0, .deliver 0, .command 1 .elect] ++ List.replicate 10 (.deliver 0)

/-- The token goes from server 3 to server 1, and server 3 is told to start again. -/
def aftermath : List (Event Trigger) :=
  [.deliver 0, .deliver 0, .command 1 .request, .deliver 0, .deliver 0, .deliver 0,
    .command 3 .elect]

theorem atMostOne_leader_rivals :
    Topology.row.Connected ∧ Fresh .row (assembly .row) ∧
      Overlay.Admitted .row behaviour (Overlay.InOrderAbout Content.isElection) (assembly .row)
        (rivals ++ aftermath) ∧
      (((assembly .row).run .row behaviour rivals).nodes 3).election.status = .leader ∧
      (∀ b ∈ Topology.row.servers,
        (((assembly .row).run .row behaviour (rivals ++ aftermath)).nodes b).election.status =
          .leader → 3 = b) ∧
      made .row (assembly .row) rivals = 1 ∧
      made .row (assembly .row) (rivals ++ aftermath) ≤ 1 ∧
      tokens .row ((assembly .row).run .row behaviour (rivals ++ aftermath)) =
        made .row (assembly .row) (rivals ++ aftermath) ∧
      (((assembly .row).run .row behaviour (rivals ++ aftermath)).nodes 1).exclusion.token.isSome :=
  have he : Overlay.Admitted .row behaviour (Overlay.InOrderAbout Content.isElection)
      (assembly .row) (rivals ++ aftermath) := by decide +kernel
  have hleads : (((assembly .row).run .row behaviour rivals).nodes 3).election.status =
      .leader := by decide +kernel
  have hgone : (((assembly .row).run .row behaviour
      (rivals ++ aftermath)).nodes 1).exclusion.token.isSome := by decide +kernel
  have ⟨hsole, hone, hstays, hmade, _⟩ :=
    atMostOne_leader .row Topology.connected_row fresh_assembly rivals aftermath he
  ⟨Topology.connected_row, fresh_assembly, he, hleads,
    fun b hb => hsole 3 (by decide) b hb hleads, hmade 3 (by decide) hleads, hone, hstays, hgone⟩

end Server

end RelayMesh
