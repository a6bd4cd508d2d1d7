import RelayMesh.Proofs.Mesh.Queues

namespace RelayMesh

/-- The routes without the record of the chat lines that have reached clients. -/
def Routes.forget (t : Routes) : Routes := { t with lastChat := .empty }

namespace Routes

variable (t : Routes)

@[simp] theorem own_forget : t.forget.own = t.own := rfl

@[simp] theorem get?_forget (id : Id) : t.forget.get? id = t.get? id := rfl

@[simp] theorem atLink_forget (link : LinkId) : t.forget.atLink link = t.atLink link := rfl

@[simp] theorem set_forget (id : Id) (route : Route) :
    t.forget.set id route = (t.set id route).forget := by
  by_cases h : id = t.own <;> simp [set, forget, h]

theorem learnFrom_forget (next : Id) (link : LinkId) (distance : Nat) (path : List Id) :
    learnFrom next link t.forget distance path =
      ((learnFrom next link t distance path).1.forget, (learnFrom next link t distance path).2) := by
  induction path generalizing t distance with
  | nil => rfl
  | cons id path ih =>
    have himproves (hops : Nat) : t.forget.improves id hops = t.improves id hops := rfl
    by_cases h : id ≠ t.own ∧ t.improves id (min distance maxHops)
    · simp [learnFrom, himproves, h, ih]
    · simp [learnFrom, himproves, h, ih]

@[simp] theorem learn_forget (path : List Id) (link : LinkId) :
    t.forget.learn path link = ((t.learn path link).1.forget, (t.learn path link).2) := by
  unfold learn
  cases path.getLast? with
  | none => rfl
  | some next => by_cases h : next = t.own <;> simp [h, learnFrom_forget]

end Routes

namespace Server

/-- The server without its record of the chat lines that have reached clients. -/
def forget (s : Server) : Server := { s with routes := s.routes.forget }

variable (s : Server) (type : MessageType) (msg : Message)

@[simp] theorem identity_forget : s.forget.identity = s.identity := rfl

@[simp] theorem routes_forget : s.forget.routes = s.routes.forget := rfl

@[simp] theorem election_forget : s.forget.election = s.election := rfl

@[simp] theorem exclusion_forget : s.forget.exclusion = s.exclusion := rfl

@[simp] theorem outbox_forget : s.forget.outbox = s.outbox := rfl

@[simp] theorem down_forget : s.forget.down = s.down := rfl

@[simp] theorem frame_forget : s.forget.frame type msg = s.frame type msg := rfl

@[simp] theorem neighbourCount_forget : s.forget.neighbourCount = s.neighbourCount := rfl

@[simp] theorem sendTo_forget (dest : Id) :
    s.forget.sendTo dest type msg = (s.sendTo dest type msg).map forget := by
  unfold sendTo
  by_cases hid : dest = s.identity
  · simp [hid, Except.map]
  · simp only [identity_forget, hid, if_false, routes_forget, Routes.get?_forget]
    cases s.routes.get? dest with
    | none => rfl
    | some route =>
      simp only [frame_forget, outbox_forget]
      cases s.frame type (msg.appendToPath s.identity) with
      | error why => rfl
      | ok f =>
        simp only [bind, Except.bind]
        cases s.outbox.push route.link f <;> rfl

@[simp] theorem flood_forget (except : Option Id) :
    s.forget.flood except type msg =
      ((s.flood except type msg).1.forget, (s.flood except type msg).2) := by
  unfold flood
  simp only [identity_forget, frame_forget]
  cases s.frame type (msg.appendToPath s.identity) <;> rfl

@[simp] theorem carryOut_forget (o : Outgoing) : s.forget.carryOut o = (s.carryOut o).forget := by
  cases o with
  | flood except type msg => simp only [carryOut, flood_forget]
  | toServer dest type msg =>
    simp only [carryOut, sendTo_forget]
    cases s.sendTo dest type msg <;> rfl

@[simp] theorem carryOutAll_forget (sends : List Outgoing) :
    s.forget.carryOutAll sends = (s.carryOutAll sends).forget :=
  List.foldl_hom forget fun s o => s.carryOut_forget o

@[simp] theorem announceTo_forget (dest : Id) :
    s.forget.announceTo dest = (s.announceTo dest).forget := s.carryOut_forget _

@[simp] theorem learnRoutes_forget (link : LinkId) :
    s.forget.learnRoutes msg link = (s.learnRoutes msg link).forget := by
  have hannounced (s : Server) (learned : List Id) :
      learned.foldl announceTo s.forget = (learned.foldl announceTo s).forget :=
    List.foldl_hom forget announceTo_forget
  simp only [learnRoutes, routes_forget, Routes.learn_forget]
  exact hannounced { s with routes := (s.routes.learn msg.path link).1 } _

@[simp] theorem enter_forget : s.forget.enter = s.enter.forget := by
  by_cases h : s.config.criticalSection = 0 ∨ s.down = true <;> simp [enter, armTimer, forget, h]

@[simp] theorem applyExclusion_forget (step : Exclusion × Exclusion.Outcome) :
    s.forget.applyExclusion step = (s.applyExclusion step).forget := by
  have hsent := carryOutAll_forget { s with exclusion := step.1 } step.2.sends
  unfold applyExclusion
  by_cases h : step.2.entered = true
  · simp only [h, if_true]
    exact (congrArg enter hsent).trans (enter_forget _)
  · simp only [h, Bool.false_eq_true, if_false]
    exact hsent

@[simp] theorem applyElection_forget (step : Election × List Outgoing) :
    s.forget.applyElection step = (s.applyElection step).forget := by
  have hsent := carryOutAll_forget { s with election := step.1 } step.2
  have hlead (s : Server) :
      (if s.forget.election.isLeader then s.forget.applyExclusion s.forget.exclusion.mint
        else s.forget) =
        (if s.election.isLeader then s.applyExclusion s.exclusion.mint else s).forget := by
    by_cases h : s.election.isLeader = true <;> simp [h]
  exact (congrArg (fun s => if s.election.isLeader then s.applyExclusion s.exclusion.mint else s)
    hsent).trans (hlead _)

@[simp] theorem leave_forget (stay : Option Nat) : s.forget.leave stay = (s.leave stay).forget := by
  have hstays : s.forget.stays = s.stays := rfl
  unfold leave
  by_cases h : stay.all (· = s.stays) = true
  · simp only [hstays, h, if_true]
    exact carryOutAll_forget { s with exclusion := s.exclusion.release.1 } s.exclusion.release.2
  · simp only [hstays, h, Bool.false_eq_true, if_false]

@[simp] theorem receive_forget (kind : Kind) :
    s.forget.receive kind msg = (s.receive kind msg).map forget := by
  cases kind with
  | identity => simp [receive, receiveIdentity, Except.map]
  | electionToken =>
    simp only [receive, receiveElectionToken]
    cases msg.content <;> simp [mismatch, Except.map]
  | electionLeader =>
    simp only [receive, receiveElectionLeader]
    cases msg.content <;> simp [mismatch, Except.map]
  | mutexRequest =>
    simp only [receive, receiveMutexRequest]
    cases msg.content with
    | mutexRequest n =>
      exact congrArg Except.ok
        (carryOutAll_forget { s with exclusion := (s.exclusion.onRequest msg).1 } _)
    | _ => rfl
  | mutexToken =>
    simp only [receive, receiveMutexToken]
    cases msg.content <;> simp [mismatch, Except.map]
  | chat => rfl

@[simp] theorem execute_forget : s.forget.execute type msg = (s.execute type msg).map forget := by
  unfold execute
  cases Action.ofType? type with
  | none => rfl
  | some action =>
    simp only [receive_forget]
    by_cases h : msg.content.kind = action.kind <;> simp [h, mismatch, Except.map]

@[simp] theorem executeMessage_forget :
    s.forget.executeMessage msg = (s.executeMessage msg).map forget := by
  unfold executeMessage
  cases Action.ofKind? msg.content.kind with
  | none => rfl
  | some action => exact s.execute_forget action.type msg

@[simp] theorem perform_forget : s.forget.perform type msg = (s.perform type msg).forget := by
  simp only [perform, execute_forget]
  cases s.execute type msg <;> rfl

@[simp] theorem release_forget (w : Withheld) : s.forget.release w = (s.release w).forget := by
  simp only [release, executeMessage_forget]
  cases s.executeMessage w.msg <;> rfl

/-- Only chat is about what has reached clients. -/
theorem dispatch_forget (hooks : Interception) (h : MessageType.isForClients type = false) :
    s.forget.dispatch hooks type msg =
      ((s.dispatch hooks type msg).1.forget, (s.dispatch hooks type msg).2) := by
  have hother : s.forget.otherRecipient? msg = s.otherRecipient? msg := rfl
  simp only [dispatch, h, Bool.false_eq_true, if_false, hother, identity_forget, forward,
    carryOut_forget, perform_forget]
  cases s.otherRecipient? msg with
  | some dest => rfl
  | none => cases hooks.claim s.identity msg <;> rfl

theorem arrive_forget (hooks : Interception) (link : LinkId) {f : Frame}
    (h : MessageType.isForClients f.type = false) :
    s.forget.arrive hooks link f = ((s.arrive hooks link f).1.forget, (s.arrive hooks link f).2) := by
  by_cases hdown : s.down = true
  · simp [arrive, hdown]
  · simp only [arrive, down_forget, hdown, Bool.false_eq_true, if_false, handleFrame, routes_forget,
      Routes.atLink_forget, h, false_and, learnRoutes_forget]
    cases s.routes.atLink link with
    | none => rfl
    | some r =>
      cases f.message with
      | error why => rfl
      | ok msg => by_cases hc : r.2.isClient = true <;> simp [hc, dispatch_forget _ _ _ hooks h]

@[simp] theorem closeLink_forget (link : LinkId) :
    s.forget.closeLink link = (s.closeLink link).forget := by
  by_cases h : s.down = true <;> simp [closeLink, h, forget, Routes.removeLink, Routes.forget]

@[simp] theorem expire_forget : s.forget.expire = s.expire.forget := by
  have hfired (s : Server) (due : List Timer) :
      due.foldl fire s.forget = (due.foldl fire s).forget :=
    List.foldl_hom forget fun s timer => s.leave_forget (some timer.stay)
  exact hfired { s with timers := (s.timers.partition (·.due ≤ s.clock)).2 } _

@[simp] theorem advance_forget (ms : Nat) : s.forget.advance ms = (s.advance ms).forget :=
  expire_forget { s with clock := s.clock + ms }

theorem addNeighbour_forget (peer : Id) (link : LinkId) :
    s.forget.addNeighbour peer link = (s.addNeighbour peer link).forget :=
  congrArg (fun routes => { s with routes }) (s.routes.set_forget peer _)

theorem addClient_forget (client : Id) (link : LinkId) :
    s.forget.addClient client link = (s.addClient client link).forget :=
  congrArg (fun routes => { s with routes }) (s.routes.set_forget client _)

@[simp] theorem announce_forget : s.forget.announce = s.announce.forget := by
  simp only [announce, flood_forget, identity_forget]

theorem console_forget (line : String) : (s.forget.console line).1 = (s.console line).1.forget := by
  unfold console
  simp only [startElection, requestSection, neighbourCount_forget, election_forget, exclusion_forget,
    applyElection_forget, applyExclusion_forget]
  split_ifs <;> rfl

theorem obey_forget (c : Command) (hc : ∀ except type msg, c ≠ .floodClients except type msg) :
    (s.forget.obey c).1 = (s.obey c).1.forget := by
  have attempt_forget (step : Except Fault Server) :
      (s.forget.attempt (step.map forget)).1 = (s.attempt step).1.forget := by
    cases step <;> rfl
  cases c with
  | floodClients except type msg => exact absurd rfl (hc except type msg)
  | send dest type msg => simp only [obey, sendTo_forget, attempt_forget]
  | execute type msg => simp only [obey, execute_forget, attempt_forget]
  | executeMessage msg => simp only [obey, executeMessage_forget, attempt_forget]
  | receive kind msg => simp only [obey, receive_forget, attempt_forget]
  | console line => simp only [obey, console_forget]
  | shutdown => rfl
  | _ => simp [obey, startElection, requestSection]

end Server
end RelayMesh
