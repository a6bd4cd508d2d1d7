import RelayMesh.Proofs.Exclusion.Flooding
import RelayMesh.Proofs.Overlay.Projection
import RelayMesh.Proofs.Server.Steps

namespace RelayMesh

namespace Content

def isElection (c : Content) : Bool := c.initiator?.isSome

def isExclusion (c : Content) : Bool := c.kind = .mutexRequest ∨ c.kind = .mutexToken

theorem isExclusion_eq_false {c : Content} (h : c.isElection = true) : c.isExclusion = false := by
  cases c <;> first | rfl | cases h

theorem isElection_eq_false {c : Content} (h : c.isExclusion = true) : c.isElection = false := by
  cases c <;> first | rfl | cases h

end Content

namespace Outgoing

def IsElection (o : Outgoing) : Prop := o.message.content.isElection = true

def IsExclusion (o : Outgoing) : Prop := o.message.content.isExclusion = true

end Outgoing

open Outgoing (IsElection IsExclusion)

namespace Election

theorem isElection_start (e : Election) (n : Nat) : ∀ o ∈ (e.start n).2, IsElection o := by
  unfold start
  split
  · simp
  · dsimp only
    split
    · simp
    · exact List.forall_mem_singleton.2 rfl

theorem isElection_finishWave (e : Election) (initiator : Id) :
    ∀ o ∈ e.finishWave initiator, IsElection o := by
  unfold finishWave
  split
  · exact List.forall_mem_singleton.2 rfl
  · split
    · exact List.forall_mem_singleton.2 rfl
    · simp

theorem isElection_onToken (e : Election) (sender initiator : Id) (n : Nat) :
    ∀ o ∈ (e.onToken sender initiator n).2, IsElection o := by
  have hjoin : ∀ o ∈ (e.join sender initiator).2, IsElection o := by
    unfold join
    split
    · simp
    · exact List.forall_mem_singleton.2 rfl
  have hcount : ∀ e : Election, ∀ o ∈ (e.countEcho initiator n).2, IsElection o := by
    intro e
    unfold countEcho
    split
    · dsimp only
      split
      · exact isElection_finishWave _ _
      · simp
    · simp
  exact List.forall_mem_append.2 ⟨hjoin, hcount _⟩

theorem isElection_onLeader (e : Election) (initiator : Id) (n : Nat) :
    ∀ o ∈ (e.onLeader initiator n).2, IsElection o := by
  have hrelay : ∀ o ∈ (if e.leaderEchoes = 0 ∧ initiator ≠ e.own then
      [Outgoing.flood none MessageType.electionLeader (e.leaderMessage initiator)]
    else []), IsElection o := by
    split
    · exact List.forall_mem_singleton.2 rfl
    · simp
  unfold onLeader
  dsimp only
  split <;> exact hrelay

end Election

theorem Exclusion.Tells.isExclusion {x : Exclusion} {heard : Option Message}
    {r : Exclusion × List Outgoing} (h : x.Tells heard r) : ∀ o ∈ r.2, IsExclusion o := by
  intro o ho
  cases o with
  | flood except type msg =>
    obtain ⟨n, hc, -⟩ := h.floods except type msg ho
    simp [IsExclusion, Outgoing.message, hc, Content.isExclusion, Content.kind]
  | toServer dest type msg =>
    obtain ⟨n, token, hc⟩ := h.sends dest type msg ho
    simp [IsExclusion, Outgoing.message, hc, Content.isExclusion, Content.kind]

namespace Server

open RelayMesh.Action (Registered)

/-- What the operator asks of a server, or what it hears. -/
inductive Trigger
  | elect
  | request
  | leave (stay : Option Nat)
  /-- A message comes that belongs neither to the election nor to mutual exclusion. -/
  | hear (type : MessageType) (msg : Message)
deriving DecidableEq

/-- What a server sends on a step of the election, and when it makes the token as the leader. -/
def electionSends (s : Server) (step : Election × List Outgoing) : List Outgoing :=
  step.2 ++ if step.1.isLeader then s.exclusion.mint.2.sends else []

def leaveSends (s : Server) (stay : Option Nat) : List Outgoing :=
  if stay.all (· = s.stays) then s.exclusion.release.2 else []

/-- The step of the election that a message asks for. -/
def electionStep (s : Server) (msg : Message) : Election × List Outgoing :=
  match msg.content with
  | .electionToken initiator => s.election.onToken msg.sender initiator s.neighbourCount
  | .electionLeader initiator => s.election.onLeader initiator s.neighbourCount
  | _ => (s.election, [])

/-- What a server sends on a message, if it runs the action for it. -/
def messageSends (s : Server) (msg : Message) : List Outgoing :=
  match msg.content with
  | .identity => [.flood none MessageType.identity { msg with recipient := none }]
  | .electionToken _ => s.electionSends (s.electionStep msg)
  | .electionLeader _ => s.electionSends (s.electionStep msg)
  | .mutexRequest _ => (s.exclusion.onRequest msg).2
  | .mutexToken _ token => (s.exclusion.onToken token).2.sends
  | .chat _ _ => []

/-- A server runs the action for a message, and what it sends is on its way. -/
def turn (s : Server) (type : MessageType) (msg : Message) : Server × List Outgoing :=
  (s.perform type msg, if (s.execute type msg).isOk then s.messageSends msg else [])

/-- Servers whose links carry what they send. -/
def behaviour : Behaviour Server Trigger where
  command _ trigger s :=
    match trigger with
    | .elect => (s.startElection, s.electionSends (s.election.start s.neighbourCount))
    | .request => (s.requestSection, s.exclusion.request.2.sends)
    | .leave stay => (s.leave stay, s.leaveSends stay)
    | .hear type msg =>
      if msg.content.isElection ∨ msg.content.isExclusion then (s, []) else s.turn type msg
  receive _ p s := s.turn p.type p.msg

variable {s s' s'' : Server} {type : MessageType} {msg : Message} {sends more : List Outgoing}

/-- The server has carried out `sends`, whatever else has come of its algorithms. -/
def CarriesOut (s : Server) (sends : List Outgoing) (s' : Server) : Prop :=
  ∃ election exclusion stays timers,
    s' = { s.carryOutAll sends with election, exclusion, stays, timers }

/-- The algorithms' state has no part in sending. -/
theorem carryOut_with (s : Server) (election : Election) (exclusion : Exclusion) (stays : Nat)
    (timers : List Timer) (o : Outgoing) :
    ({ s with election, exclusion, stays, timers } : Server).carryOut o =
      { s.carryOut o with election, exclusion, stays, timers } := by
  cases o with
  | flood except type msg =>
    simp only [carryOut, flood, frame]
    split <;> rfl
  | toServer dest type msg =>
    simp only [carryOut, sendTo, frame]
    by_cases hid : dest = s.identity
    · simp only [if_pos hid]
    · simp only [if_neg hid]
      cases s.routes.get? dest with
      | none => rfl
      | some route =>
        dsimp only
        cases Frame.ofMessage type s.identity (msg.appendToPath s.identity)
          s.config.maxMessageSize with
        | error why => rfl
        | ok f => cases hpush : s.outbox.push route.link f <;> simp only [hpush, bind, Except.bind] <;> rfl

theorem carryOutAll_with (s : Server) (election : Election) (exclusion : Exclusion) (stays : Nat)
    (timers : List Timer) (sends : List Outgoing) :
    ({ s with election, exclusion, stays, timers } : Server).carryOutAll sends =
      { s.carryOutAll sends with election, exclusion, stays, timers } := by
  induction sends generalizing s with
  | nil => rfl
  | cons o sends ih =>
    simp only [carryOutAll, List.foldl_cons] at ih ⊢
    rw [carryOut_with, ih]

theorem carriesOut_refl (s : Server) : s.CarriesOut [] s :=
  ⟨s.election, s.exclusion, s.stays, s.timers, rfl⟩

theorem CarriesOut.trans (h : s.CarriesOut sends s') (h' : s'.CarriesOut more s'') :
    s.CarriesOut (sends ++ more) s'' := by
  obtain ⟨election, exclusion, stays, timers, rfl⟩ := h
  obtain ⟨election', exclusion', stays', timers', rfl⟩ := h'
  refine ⟨election', exclusion', stays', timers', ?_⟩
  rw [carryOutAll_with, carryOutAll, carryOutAll, carryOutAll, List.foldl_append]

/-- A change of the algorithms' state, and the sends that follow. -/
theorem carriesOut_carryOutAll (s : Server) (election : Election) (exclusion : Exclusion)
    (sends : List Outgoing) :
    s.CarriesOut sends (({ s with election, exclusion } : Server).carryOutAll sends) :=
  ⟨election, exclusion, s.stays, s.timers, carryOutAll_with s election exclusion s.stays s.timers _⟩

theorem carriesOut_enter (s : Server) : s.CarriesOut [] s.enter := by
  unfold enter armTimer
  split
  · exact ⟨s.election, s.exclusion, _, s.timers, rfl⟩
  · exact ⟨s.election, s.exclusion, _, _, rfl⟩

theorem carriesOut_applyExclusion (s : Server) (step : Exclusion × Exclusion.Outcome) :
    s.CarriesOut step.2.sends (s.applyExclusion step) := by
  have hsent := s.carriesOut_carryOutAll s.election step.1 step.2.sends
  unfold applyExclusion
  dsimp only
  split
  · simpa using hsent.trans (carriesOut_enter _)
  · exact hsent

theorem carriesOut_applyElection (s : Server) (step : Election × List Outgoing) :
    s.CarriesOut (s.electionSends step) (s.applyElection step) := by
  have hsent := s.carriesOut_carryOutAll step.1 s.exclusion step.2
  unfold applyElection electionSends
  dsimp only
  simp only [election_carryOutAll, exclusion_carryOutAll]
  split
  · exact hsent.trans (carriesOut_applyExclusion _ _)
  · simpa using hsent

theorem carriesOut_receive (h : s.receive msg.content.kind msg = .ok s') :
    s.CarriesOut (s.messageSends msg) s' := by
  unfold messageSends
  cases hc : msg.content with
  | identity =>
    simp only [hc, Content.kind, receive, receiveIdentity, Except.ok.injEq] at h
    rw [← h]
    exact s.carriesOut_carryOutAll s.election s.exclusion [.flood none MessageType.identity _]
  | electionToken initiator =>
    simp only [hc, Content.kind, receive, receiveElectionToken, Except.ok.injEq] at h
    simp only [electionStep, hc, ← h]
    exact s.carriesOut_applyElection _
  | electionLeader initiator =>
    simp only [hc, Content.kind, receive, receiveElectionLeader, Except.ok.injEq] at h
    simp only [electionStep, hc, ← h]
    exact s.carriesOut_applyElection _
  | mutexRequest n =>
    simp only [hc, Content.kind, receive, receiveMutexRequest, Except.ok.injEq] at h
    rw [← h]
    exact s.carriesOut_carryOutAll s.election _ _
  | mutexToken n token =>
    simp only [hc, Content.kind, receive, receiveMutexToken, Except.ok.injEq] at h
    rw [← h]
    exact s.carriesOut_applyExclusion _
  | chat n text =>
    simp only [hc, Content.kind, receive] at h
    cases h

theorem execute_eq_ok (h : s.execute type msg = .ok s') :
    s.receive msg.content.kind msg = .ok s' := by
  unfold execute at h
  split at h
  · cases h
  · split at h
    next hk => rwa [hk]
    · cases h

theorem carriesOut_turn (s : Server) (type : MessageType) (msg : Message) :
    s.CarriesOut (s.turn type msg).2 (s.turn type msg).1 := by
  unfold turn perform
  cases h : s.execute type msg with
  | error why => exact s.carriesOut_refl
  | ok s' => exact carriesOut_receive (execute_eq_ok h)

/-- Whatever a server is asked, it carries out what it sends. -/
theorem carriesOut_command (a : Id) (trigger : Trigger) (s : Server) :
    s.CarriesOut (behaviour.command a trigger s).2 (behaviour.command a trigger s).1 := by
  cases trigger with
  | elect => exact s.carriesOut_applyElection _
  | request => exact s.carriesOut_applyExclusion _
  | leave stay =>
    simp only [behaviour, leave, leaveSends]
    split
    · exact s.carriesOut_carryOutAll s.election _ _
    · exact s.carriesOut_refl
  | hear type msg =>
    simp only [behaviour]
    split
    · exact s.carriesOut_refl
    · exact s.carriesOut_turn type msg

/-- The action for a message is run if its type is the one for its content. -/
theorem turn_of_registered (h : Registered type msg.content.kind)
    (hr : s.receive msg.content.kind msg = .ok s') : s.turn type msg = (s', s.messageSends msg) := by
  obtain ⟨action, haction, hkind⟩ := Option.map_eq_some_iff.1 (Action.registered_iff.1 h)
  have hexecute : s.execute type msg = .ok s' := by
    simp only [execute, haction, hkind, if_true]
    exact hr
  simp [turn, perform, hexecute, Except.isOk, Except.toBool]

/-- A message of mutual exclusion is handled by its algorithm. -/
theorem turn_of_isExclusion (h : Registered type msg.content.kind)
    (hc : msg.content.isExclusion = true) :
    Aside s (s.turn type msg).1 ∧ (s.turn type msg).1.exclusion = (s.exclusion.receive msg).1 ∧
      (s.turn type msg).2 = (s.exclusion.receive msg).2 := by
  cases hcontent : msg.content with
  | mutexRequest n =>
    have hrun : s.receive msg.content.kind msg =
        .ok ({ s with exclusion := (s.exclusion.onRequest msg).1 }.carryOutAll
          (s.exclusion.onRequest msg).2) := by
      simp [hcontent, Content.kind, receive, receiveMutexRequest]
    rw [turn_of_registered h hrun]
    refine ⟨s.aside_carryOutAll _ (by simp), ?_, ?_⟩
    · simp [Exclusion.receive, hcontent]
    · simp [Exclusion.receive, messageSends, hcontent]
  | mutexToken n token =>
    have hrun : s.receive msg.content.kind msg =
        .ok (s.applyExclusion (s.exclusion.onToken token)) := by
      simp [hcontent, Content.kind, receive, receiveMutexToken]
    rw [turn_of_registered h hrun]
    refine ⟨s.aside_applyExclusion (by simp), ?_, ?_⟩
    · simp [Exclusion.receive, hcontent]
    · simp [Exclusion.receive, messageSends, hcontent]
  | _ => simp [hcontent, Content.isExclusion, Content.kind] at hc

theorem isElection_electionStep (s : Server) (msg : Message) :
    ∀ o ∈ (s.electionStep msg).2, IsElection o := by
  unfold electionStep
  split
  · exact Election.isElection_onToken _ _ _ _
  · exact Election.isElection_onLeader _ _ _
  · simp

/-- A message of the election is handled by its algorithm. -/
theorem turn_of_isElection (h : Registered type msg.content.kind)
    (hc : msg.content.isElection = true) :
    s.turn type msg =
      (s.applyElection (s.electionStep msg), s.electionSends (s.electionStep msg)) := by
  cases hcontent : msg.content with
  | electionToken initiator =>
    have hrun : s.receive msg.content.kind msg = .ok (s.applyElection (s.electionStep msg)) := by
      simp [hcontent, Content.kind, receive, receiveElectionToken, electionStep]
    rw [turn_of_registered h hrun]
    simp [messageSends, hcontent]
  | electionLeader initiator =>
    have hrun : s.receive msg.content.kind msg = .ok (s.applyElection (s.electionStep msg)) := by
      simp [hcontent, Content.kind, receive, receiveElectionLeader, electionStep]
    rw [turn_of_registered h hrun]
    simp [messageSends, hcontent]
  | _ => simp [hcontent, Content.isElection, Content.initiator?] at hc

theorem isExclusion_mint (x : Exclusion) : ∀ o ∈ x.mint.2.sends, IsExclusion o :=
  (x.obey_tells .mint).isExclusion

theorem filter_isElection {step : Election × List Outgoing} (h : ∀ o ∈ step.2, IsElection o) :
    (s.electionSends step).filter (·.message.content.isElection) = step.2 := by
  unfold electionSends
  rw [List.filter_append, List.filter_eq_self.2 h, List.filter_eq_nil_iff.2, List.append_nil]
  intro o ho
  split at ho
  · simp [Content.isElection_eq_false (isExclusion_mint _ o ho)]
  · simp at ho

theorem filter_isExclusion {step : Election × List Outgoing} (h : ∀ o ∈ step.2, IsElection o) :
    (s.electionSends step).filter (·.message.content.isExclusion) =
      if step.1.isLeader then s.exclusion.mint.2.sends else [] := by
  unfold electionSends
  rw [List.filter_append, List.filter_eq_nil_iff.2, List.nil_append, List.filter_eq_self.2]
  · intro o ho
    split at ho
    · exact isExclusion_mint _ o ho
    · simp at ho
  · intro o ho
    simp [Content.isExclusion_eq_false (h o ho)]

/-- Any other message changes nothing in the algorithms, and makes no other sends than itself. -/
theorem turn_of_not (type : MessageType) (he : msg.content.isElection = false)
    (hx : msg.content.isExclusion = false) :
    Aside s (s.turn type msg).1 ∧ (s.turn type msg).1.exclusion = s.exclusion ∧
      ∀ o ∈ (s.turn type msg).2, o.message.content = msg.content := by
  unfold turn perform
  cases h : s.execute type msg with
  | error why => exact ⟨s.aside_rfl, rfl, by simp [Except.isOk, Except.toBool]⟩
  | ok s' =>
    have hrun := execute_eq_ok h
    cases hc : msg.content with
    | identity =>
      simp only [hc, Content.kind, receive, receiveIdentity, Except.ok.injEq] at hrun
      obtain ⟨outbox, rfl⟩ : ∃ outbox, s' = { s with outbox } := by
        rw [← hrun]
        exact s.exists_carryOut (.flood none MessageType.identity _)
      refine ⟨⟨rfl, rfl, rfl⟩, rfl, ?_⟩
      simp [Except.isOk, Except.toBool, messageSends, hc, Outgoing.message]
    | chat n text =>
      simp only [hc, Content.kind, receive] at hrun
      cases hrun
    | _ => simp [hc, Content.isElection, Content.initiator?, Content.isExclusion, Content.kind] at he hx

theorem registered_electionSends (s : Server) {step : Election × List Outgoing}
    (h : ∀ o ∈ step.2, o.Own) :
    ∀ o ∈ s.electionSends step, Registered o.type o.message.content.kind := by
  unfold electionSends
  refine List.forall_mem_append.2 ⟨fun o ho => (h o ho).registered, ?_⟩
  split
  · exact fun o ho => (Exclusion.own_mint _ o ho).registered
  · simp

/-- What a server sends goes under the type for its content. -/
theorem registered_turn (s : Server) (type : MessageType) (msg : Message) :
    ∀ o ∈ (s.turn type msg).2, Registered o.type o.message.content.kind := by
  unfold turn
  split
  · unfold messageSends electionStep
    cases hc : msg.content with
    | identity =>
      exact List.forall_mem_singleton.2 (Action.registered_iff.2 rfl)
    | electionToken initiator => exact s.registered_electionSends (Election.own_onToken _ _ _ _)
    | electionLeader initiator => exact s.registered_electionSends (Election.own_onLeader _ _ _)
    | mutexRequest n =>
      intro o ho
      rcases Exclusion.own_onRequest s.exclusion msg o ho with rfl | hown
      · exact Action.registered_iff.2 (by rw [Outgoing.message, hc]; rfl)
      · exact hown.registered
    | mutexToken n token => exact fun o ho => (Exclusion.own_onToken _ _ o ho).registered
    | chat n text => simp
  · simp

theorem registered_command (a : Id) (trigger : Trigger) (s : Server) :
    ∀ o ∈ (behaviour.command a trigger s).2, Registered o.type o.message.content.kind := by
  cases trigger with
  | elect => exact s.registered_electionSends (Election.own_start _ _)
  | request => exact fun o ho => (Exclusion.own_request _ o ho).registered
  | leave stay =>
    simp only [behaviour, leaveSends]
    split
    · exact fun o ho => (Exclusion.own_release _ o ho).registered
    · simp
  | hear type msg =>
    simp only [behaviour]
    split
    · simp
    · exact s.registered_turn type msg

/-- All that a server does in a turn, on a message that it has heard or on its own. -/
inductive Does (s : Server) : Option Message → Server × List Outgoing → Prop
  | start : Does s none (s.startElection, s.electionSends (s.election.start s.neighbourCount))
  | vote (msg : Message) (hc : msg.content.isElection = true) :
    Does s (some msg) (s.applyElection (s.electionStep msg), s.electionSends (s.electionStep msg))
  | obey (what : Exclusion.Command) (hwhat : what ≠ .mint) (x : Server) (aside : Aside s x)
      (hx : x.exclusion = (s.exclusion.obey what).1) : Does s none (x, (s.exclusion.obey what).2)
  | serve (msg : Message) (hc : msg.content.isExclusion = true) (x : Server) (aside : Aside s x)
      (hx : x.exclusion = (s.exclusion.receive msg).1) :
    Does s (some msg) (x, (s.exclusion.receive msg).2)
  | other (heard : Option Message) (x : Server) (sends : List Outgoing) (aside : Aside s x)
      (hx : x.exclusion = s.exclusion)
      (hheard : ∀ msg ∈ heard, msg.content.isElection = false ∧ msg.content.isExclusion = false)
      (hs : ∀ o ∈ sends, o.message.content.isElection = false ∧
        o.message.content.isExclusion = false) : Does s heard (x, sends)

theorem does_command (a : Id) (trigger : Trigger) (s : Server) :
    s.Does none (behaviour.command a trigger s) := by
  have quiet : s.Does none (s, []) :=
    .other none s [] s.aside_rfl rfl (by simp) (by simp)
  cases trigger with
  | elect => exact .start
  | request =>
    exact .obey .request nofun s.requestSection (s.aside_applyExclusion (by simp))
      (s.exclusion_applyExclusion _)
  | leave stay =>
    simp only [behaviour, leave, leaveSends]
    split
    · exact .obey .release nofun _ (s.aside_carryOutAll _ (by simp)) (by simp [Exclusion.obey])
    · exact quiet
  | hear type msg =>
    simp only [behaviour]
    split
    · exact quiet
    next hno =>
      obtain ⟨he, hx⟩ : msg.content.isElection = false ∧ msg.content.isExclusion = false := by
        simpa using hno
      obtain ⟨haside, hsame, hsends⟩ := s.turn_of_not type he hx
      refine .other none _ _ haside hsame (by simp) fun o ho => ?_
      rw [hsends o ho]
      exact ⟨he, hx⟩

theorem does_turn (s : Server) (h : Registered type msg.content.kind) :
    s.Does (some msg) (s.turn type msg) := by
  cases he : msg.content.isElection with
  | true =>
    rw [turn_of_isElection h he]
    exact .vote msg he
  | false =>
    cases hx : msg.content.isExclusion with
    | true =>
      obtain ⟨haside, hafter, hsends⟩ := s.turn_of_isExclusion h hx
      have hdoes := Does.serve msg hx _ haside hafter
      rwa [← hsends] at hdoes
    | false =>
      obtain ⟨haside, hsame, hsends⟩ := s.turn_of_not type he hx
      refine .other (some msg) _ _ haside hsame (by simp [he, hx]) fun o ho => ?_
      rw [hsends o ho]
      exact ⟨he, hx⟩

variable {heard : Option Message} {r : Server × List Outgoing}

theorem Does.routes (h : s.Does heard r) : r.1.routes = s.routes := by
  cases h with
  | start => exact routes_applyElection s _
  | vote msg hc => exact routes_applyElection s _
  | obey what hwhat x aside hx => exact aside.routes
  | serve msg hc x aside hx => exact aside.routes
  | other heard x sends aside hx hheard hs => exact aside.routes

theorem Does.minted (h : s.Does heard r) (hs : s.election.status = .leader → s.exclusion.minted = true)
    (hl : r.1.election.status = .leader) : r.1.exclusion.minted = true := by
  cases h with
  | start => exact minted_applyElection_of_leader (by simpa [startElection] using hl)
  | vote msg hc => exact minted_applyElection_of_leader (by simpa using hl)
  | obey what hwhat x aside hx => exact aside.minted.trans (hs (aside.election ▸ hl))
  | serve msg hc x aside hx => exact aside.minted.trans (hs (aside.election ▸ hl))
  | other heard x sends aside hx hheard hs' => exact aside.minted.trans (hs (aside.election ▸ hl))

/-- The mark of a server that has made the token stays. -/
theorem Does.minted_of_minted (h : s.Does heard r) (hm : s.exclusion.minted = true) :
    r.1.exclusion.minted = true := by
  cases h with
  | start => exact minted_applyElection_of_minted _ hm
  | vote msg hc => exact minted_applyElection_of_minted _ hm
  | obey what hwhat x aside hx => exact aside.minted.trans hm
  | serve msg hc x aside hx => exact aside.minted.trans hm
  | other heard x sends aside hx hheard hs => exact aside.minted.trans hm

end Server

end RelayMesh
