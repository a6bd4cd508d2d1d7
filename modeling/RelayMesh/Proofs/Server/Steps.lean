import RelayMesh.Proofs.Exclusion.Steps
import RelayMesh.Proofs.Server.Acts

namespace RelayMesh

namespace Server

theorem exists_carryOutAll (s : Server) (sends : List Outgoing) :
    ∃ outbox, s.carryOutAll sends = { s with outbox } := by
  induction sends generalizing s with
  | nil => exact ⟨s.outbox, rfl⟩
  | cons o sends ih =>
    obtain ⟨first, h⟩ := s.exists_carryOut o
    obtain ⟨last, hl⟩ := ih (s.carryOut o)
    refine ⟨last, ?_⟩
    rw [h] at hl
    rw [carryOutAll, List.foldl_cons, h]
    exact hl

/-- What a server does about the path of a message is to learn routes and to send. -/
theorem exists_learnRoutes (s : Server) (msg : Message) (link : LinkId) :
    ∃ outbox, s.learnRoutes msg link =
      { s with routes := (s.routes.learn msg.path link).1, outbox } := by
  have each : ∀ (learned : List Id) (s : Server), ∃ outbox,
      learned.foldl announceTo s = { s with outbox } := by
    intro learned
    induction learned with
    | nil => exact fun s => ⟨s.outbox, rfl⟩
    | cons id learned ih =>
      intro s
      obtain ⟨first, hfirst⟩ := s.exists_carryOut (.toServer id MessageType.identity
        ((Message.new s.identity .identity).addressedTo id))
      obtain ⟨last, hlast⟩ := ih (s.announceTo id)
      refine ⟨last, ?_⟩
      rw [List.foldl_cons, hlast]
      unfold announceTo
      rw [hfirst]
  exact each _ _

/-- A server that learns nothing from a path announces itself to nobody. -/
theorem learnRoutes_eq {s : Server} {msg : Message} {link : LinkId}
    (h : s.routes.learn msg.path link = (s.routes, [])) : s.learnRoutes msg link = s := by
  simp [learnRoutes, h]

@[simp] theorem identity_learnRoutes (s : Server) (msg : Message) (link : LinkId) :
    (s.learnRoutes msg link).identity = s.identity := by
  obtain ⟨_, h⟩ := s.exists_learnRoutes msg link
  rw [h]

@[simp] theorem routes_learnRoutes (s : Server) (msg : Message) (link : LinkId) :
    (s.learnRoutes msg link).routes = (s.routes.learn msg.path link).1 := by
  obtain ⟨_, h⟩ := s.exists_learnRoutes msg link
  rw [h]

@[simp] theorem frame_learnRoutes (s : Server) (msg : Message) (link : LinkId) (type : MessageType)
    (out : Message) : (s.learnRoutes msg link).frame type out = s.frame type out := by
  obtain ⟨_, h⟩ := s.exists_learnRoutes msg link
  rw [h]
  rfl

@[simp] theorem election_carryOutAll (s : Server) (sends : List Outgoing) :
    (s.carryOutAll sends).election = s.election := by
  obtain ⟨_, h⟩ := s.exists_carryOutAll sends
  rw [h]

@[simp] theorem exclusion_carryOutAll (s : Server) (sends : List Outgoing) :
    (s.carryOutAll sends).exclusion = s.exclusion := by
  obtain ⟨_, h⟩ := s.exists_carryOutAll sends
  rw [h]

@[simp] theorem routes_carryOutAll (s : Server) (sends : List Outgoing) :
    (s.carryOutAll sends).routes = s.routes := by
  obtain ⟨_, h⟩ := s.exists_carryOutAll sends
  rw [h]

@[simp] theorem election_enter (s : Server) : s.enter.election = s.election := by
  unfold enter armTimer
  split <;> rfl

@[simp] theorem exclusion_enter (s : Server) : s.enter.exclusion = s.exclusion := by
  unfold enter armTimer
  split <;> rfl

@[simp] theorem routes_enter (s : Server) : s.enter.routes = s.routes := by
  unfold enter armTimer
  split <;> rfl

@[simp] theorem election_applyExclusion (s : Server) (step : Exclusion × Exclusion.Outcome) :
    (s.applyExclusion step).election = s.election := by
  unfold applyExclusion
  dsimp only
  split <;> simp

@[simp] theorem exclusion_applyExclusion (s : Server) (step : Exclusion × Exclusion.Outcome) :
    (s.applyExclusion step).exclusion = step.1 := by
  unfold applyExclusion
  dsimp only
  split <;> simp

@[simp] theorem routes_applyExclusion (s : Server) (step : Exclusion × Exclusion.Outcome) :
    (s.applyExclusion step).routes = s.routes := by
  unfold applyExclusion
  dsimp only
  split <;> simp

@[simp] theorem election_applyElection (s : Server) (step : Election × List Outgoing) :
    (s.applyElection step).election = step.1 := by
  unfold applyElection
  dsimp only
  split <;> simp

@[simp] theorem routes_applyElection (s : Server) (step : Election × List Outgoing) :
    (s.applyElection step).routes = s.routes := by
  unfold applyElection
  dsimp only
  split <;> simp

/-- A leader makes the token. -/
theorem exclusion_applyElection (s : Server) (step : Election × List Outgoing) :
    (s.applyElection step).exclusion =
      if step.1.isLeader then s.exclusion.mint.1 else s.exclusion := by
  unfold applyElection
  dsimp only
  rw [election_carryOutAll, exclusion_carryOutAll]
  split
  · rw [exclusion_applyExclusion]
  · rw [exclusion_carryOutAll]

/-- A server that gets to be the leader makes the token. -/
theorem minted_applyElection_of_leader {s : Server} {step : Election × List Outgoing}
    (h : step.1.status = .leader) : (s.applyElection step).exclusion.minted = true := by
  rw [exclusion_applyElection, if_pos (by simpa [Election.isLeader] using h),
    Exclusion.minted_mint]

/-- The mark of a server that has made the token stays. -/
theorem minted_applyElection_of_minted {s : Server} (step : Election × List Outgoing)
    (h : s.exclusion.minted = true) : (s.applyElection step).exclusion.minted = true := by
  rw [exclusion_applyElection]
  split
  · exact Exclusion.minted_mint _
  · exact h

/-- What has nothing to do with the election. -/
structure Aside (s s' : Server) : Prop where
  election : s'.election = s.election
  routes : s'.routes = s.routes
  minted : s'.exclusion.minted = s.exclusion.minted

theorem aside_rfl (s : Server) : Aside s s := ⟨rfl, rfl, rfl⟩

theorem aside_applyExclusion (s : Server) {step : Exclusion × Exclusion.Outcome}
    (h : step.1.minted = s.exclusion.minted) : Aside s (s.applyExclusion step) :=
  ⟨by simp, by simp, by simpa using h⟩

theorem aside_carryOutAll (s : Server) {exclusion : Exclusion} (sends : List Outgoing)
    (h : exclusion.minted = s.exclusion.minted) :
    Aside s ({ s with exclusion }.carryOutAll sends) :=
  ⟨by simp, by simp, by simpa using h⟩

section Dispatch

variable {s : Server} {type : MessageType} {msg : Message} {dest : Id}

theorem otherRecipient?_of_own (h : msg.recipient = some s.identity) :
    s.otherRecipient? msg = none := by
  simp [otherRecipient?, h, Option.filter]

/-- A message for another server is passed on, and nothing else is done. -/
theorem dispatch_of_other (s : Server) (hooks : Interception)
    (hc : MessageType.isForClients type = false)
    (hd : msg.recipient = some dest) (hid : dest ≠ s.identity) :
    s.dispatch hooks type msg = (s.carryOut (.toServer dest type msg), none) := by
  have hother : s.otherRecipient? msg = some dest := by
    simp [otherRecipient?, hd, Option.filter, hid]
  simp only [dispatch, hc, Bool.false_eq_true, if_false, hother, forward]

/-- A message that is for no other server has its action run, unless it is kept back. -/
theorem dispatch_of_own (s : Server) (hooks : Interception)
    (hc : MessageType.isForClients type = false) (hd : s.otherRecipient? msg = none) :
    s.dispatch hooks type msg =
      match hooks.claim s.identity msg with
      | some interceptor => (s, some ⟨interceptor, msg⟩)
      | none => (s.perform type msg, none) := by
  cases hclaim : hooks.claim s.identity msg with
  | some interceptor => simp only [dispatch, hc, Bool.false_eq_true, if_false, hd, hclaim]
  | none => simp only [dispatch, hc, Bool.false_eq_true, if_false, hd, hclaim]

end Dispatch

theorem get?_addNeighbour (s : Server) (peer : Id) (link : LinkId) (id : Id) :
    (s.addNeighbour peer link).routes.get? id =
      if id = peer ∧ peer ≠ s.routes.own then some ⟨.server 1 peer, link⟩ else s.routes.get? id :=
  Routes.get?_set s.routes peer id _

@[simp] theorem own_addNeighbour (s : Server) (peer : Id) (link : LinkId) :
    (s.addNeighbour peer link).routes.own = s.routes.own := Routes.own_set _ _ _

theorem exists_leave (s : Server) (stay : Option Nat) :
    ∃ exclusion outbox, s.leave stay = { s with exclusion, outbox } := by
  unfold leave
  split
  · obtain ⟨outbox, h⟩ := exists_carryOutAll { s with exclusion := s.exclusion.release.1 }
      s.exclusion.release.2
    exact ⟨_, outbox, h⟩
  · exact ⟨s.exclusion, s.outbox, rfl⟩

/-- Timers that go off set no new ones. -/
theorem exists_expire (s : Server) : ∃ exclusion outbox, s.expire =
    { s with timers := (s.timers.partition (·.due ≤ s.clock)).2, exclusion, outbox } := by
  have each : ∀ (due : List Timer) (s : Server),
      ∃ exclusion outbox, due.foldl fire s = { s with exclusion, outbox } := by
    intro due
    induction due with
    | nil => exact fun s => ⟨s.exclusion, s.outbox, rfl⟩
    | cons timer due ih =>
      intro s
      obtain ⟨first, queues, hfirst⟩ := s.exists_leave (some timer.stay)
      obtain ⟨exclusion, outbox, hrest⟩ := ih (s.fire timer)
      refine ⟨exclusion, outbox, ?_⟩
      rw [List.foldl_cons, hrest]
      unfold fire
      rw [hfirst]
  exact each _ _

theorem due_of_mem_expire {s : Server} {timer : Timer} (h : timer ∈ s.expire.timers) :
    s.expire.clock < timer.due := by
  obtain ⟨exclusion, outbox, hexpire⟩ := s.exists_expire
  rw [hexpire] at h ⊢
  rw [List.partition_eq_filter_filter] at h
  simpa using (List.mem_filter.1 h).2

/-- As long as no timer is due nothing happens. -/
theorem expire_of_not_due {s : Server} (h : ∀ timer ∈ s.timers, s.clock < timer.due) :
    s.expire = s := by
  have hpart : s.timers.partition (·.due ≤ s.clock) = ([], s.timers) := by
    rw [List.partition_eq_filter_filter, List.filter_eq_nil_iff.2, List.filter_eq_self.2]
    · exact fun timer ht => by simpa using h timer ht
    · exact fun timer ht => by simpa using h timer ht
  simp only [expire, hpart, List.foldl_nil]

end Server

end RelayMesh
