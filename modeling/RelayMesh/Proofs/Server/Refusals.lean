import RelayMesh.Proofs.Routes.Learning
import RelayMesh.Proofs.Server.Delays
import RelayMesh.Proofs.Server.Sends
import RelayMesh.Server.Command

namespace RelayMesh

namespace Action

/-- Why a message with this kind of content is not accepted under the type. -/
inductive Refuses (type : MessageType) (kind : Kind) : Fault → Prop
  | unknown (h : ∀ action ∈ all, action.type ≠ type) :
      Refuses type kind (.unknownMessageType type)
  | mismatch (action : Action) (hmem : action ∈ all) (ht : action.type = type)
      (hk : kind ≠ action.kind) : Refuses type kind (.contentMismatch type action.kind kind)

variable {action : Action} {type : MessageType} {kind : Kind} {why : Fault}

theorem ofType?_eq_none : ofType? type = none ↔ ∀ action ∈ all, action.type ≠ type := by
  simp [ofType?, List.find?_eq_none]

theorem refuses_of_none (h : ofType? type = none) :
    Refuses type kind why ↔ why = .unknownMessageType type := by
  constructor
  · rintro (_ | ⟨action, hmem, ht, _⟩)
    · rfl
    · exact absurd ht (ofType?_eq_none.1 h action hmem)
  · rintro rfl
    exact .unknown (ofType?_eq_none.1 h)

theorem refuses_of_some (h : ofType? type = some action) :
    Refuses type kind why ↔ kind ≠ action.kind ∧ why = .contentMismatch type action.kind kind := by
  obtain ⟨hmem, ht⟩ := ofType?_eq_some.1 h
  constructor
  · rintro (hno | ⟨other, hmem', ht', hk⟩)
    · exact absurd ht (hno action hmem)
    · obtain rfl : other = action :=
        Option.some.inj ((ofType?_eq_some.2 ⟨hmem', ht'⟩).symm.trans h)
      exact ⟨hk, rfl⟩
  · rintro ⟨hk, rfl⟩
    exact .mismatch action hmem ht hk

end Action

namespace Server

open RelayMesh.Action (Refuses)

variable {s s' : Server} {type : MessageType} {msg : Message} {action : Action} {why : Fault}
  {hooks : Interception} {link : LinkId} {f : Frame}

theorem mismatch_eq_error_iff {expected : Kind} : mismatch type expected msg = .error why ↔
    why = .contentMismatch type expected msg.content.kind := by
  simp [mismatch, eq_comm]

/-- An action that is called directly looks at the content itself, but for that of announcements, which
takes any message for one. -/
theorem receive_eq_error_iff (hmem : action ∈ Action.all) : s.receive action.kind msg = .error why ↔
    action.kind ≠ .identity ∧ msg.content.kind ≠ action.kind ∧
      why = .contentMismatch action.type action.kind msg.content.kind := by
  simp only [Action.all, List.mem_cons, List.not_mem_nil, or_false] at hmem
  rcases hmem with rfl | rfl | rfl | rfl | rfl
  case inl => simp [receive, receiveIdentity]
  -- Each of the other actions has a content of its own kind, and the remaining kinds are refused.
  all_goals
    cases hc : msg.content <;>
      simp [receive, receiveElectionToken, receiveElectionLeader, receiveMutexRequest,
        receiveMutexToken, mismatch_eq_error_iff, hc, Content.kind]

theorem execute_eq_error_iff : s.execute type msg = .error why ↔ Refuses type msg.content.kind why := by
  unfold execute
  cases haction : Action.ofType? type with
  | none => simp [Action.refuses_of_none haction, eq_comm]
  | some action =>
    rw [Action.refuses_of_some haction]
    obtain ⟨hmem, -⟩ := Action.ofType?_eq_some.1 haction
    by_cases hk : msg.content.kind = action.kind
    · simp [hk, receive_eq_error_iff hmem]
    · simp [hk, mismatch_eq_error_iff]

/-- Chat has no action, and everything else is run under its own type. -/
theorem executeMessage_eq_error_iff : s.executeMessage msg = .error why ↔
    msg.content.kind = .chat ∧ why = .internal (.noAction .chat) := by
  unfold executeMessage
  cases haction : Action.ofKind? msg.content.kind with
  | none => simp [Action.ofKind?_eq_none.1 haction, eq_comm]
  | some action =>
    obtain ⟨hmem, hk⟩ := Action.ofKind?_eq_some.1 haction
    have hno : msg.content.kind ≠ .chat := fun h => by
      rw [Action.ofKind?_eq_none.2 h] at haction
      cases haction
    simp [execute_eq_error_iff, Action.refuses_of_some (Action.ofType?_eq_some.2 ⟨hmem, rfl⟩), hk, hno]

theorem attempt_eq_error_iff {step : Except Fault Server} :
    s.attempt step = (s', .outcome (.error why)) ↔ step = .error why ∧ s' = s := by
  unfold attempt
  cases step with
  | ok after => simp
  | error fault => simp [eq_comm, and_comm]

theorem perform_of_refuses (h : Refuses type msg.content.kind why) : s.perform type msg = s := by
  rw [perform, execute_eq_error_iff.2 h]

theorem handleFrame_of_unassigned (h : s.routes.atLink link = none) :
    s.handleFrame hooks link f = (s, none) := by
  simp [handleFrame, h]

theorem handleFrame_of_unreadable (h : ∀ msg, f.message ≠ .ok msg) :
    s.handleFrame hooks link f = (s, none) := by
  unfold handleFrame
  split
  next msg _ hmsg => exact absurd hmsg (h msg)
  next => rfl

theorem handleFrame_of_client {r : Id × Route} (hat : s.routes.atLink link = some r)
    (hc : r.2.isClient = true) (hmsg : f.message = .ok msg)
    (h : ¬ (MessageType.isForClients f.type ∧ msg.content.kind = .chat)) :
    s.handleFrame hooks link f = (s, none) := by
  simp only [handleFrame, hat, hmsg, hc, if_true, if_neg h]

/-- What a server learns from the path of a message that it drops then stays learned. -/
theorem handleFrame_of_refuses {r : Id × Route} (hat : s.routes.atLink link = some r)
    (hc : r.2.isClient = false) (hmsg : f.message = .ok msg)
    (ht : MessageType.isForClients f.type = false) (hd : s.otherRecipient? msg = none)
    (hclaim : hooks.claim s.identity msg = none) (h : Refuses f.type msg.content.kind why) :
    s.handleFrame hooks link f = (s.learnRoutes msg link, none) := by
  have hd' : (s.learnRoutes msg link).otherRecipient? msg = none := by
    simpa [otherRecipient?] using hd
  rw [handleFrame, hat, hmsg]
  simp only [hc, Bool.false_eq_true, if_false, (Routes.of_atLink hat).2]
  rw [dispatch_of_own _ hooks ht hd', identity_learnRoutes, hclaim]
  simp only [perform_of_refuses h]

/-- The announcement of itself that a server sends to another one that it has learned of. -/
def announcement (s : Server) (dest : Id) : Except Fault Frame :=
  s.frame MessageType.identity
    (((Message.new s.identity .identity).addressedTo dest).appendToPath s.identity)

/-- A server that learns routes changes no route that leads to somebody else than the servers of the
path, and all that it sends are announcements to servers whose routes have changed. -/
structure Learns (s : Server) (path : List Id) (link : LinkId) (s' : Server) : Prop where
  rest : ∃ outbox, s' = { s with routes := (s.routes.learn path link).1, outbox }
  lastChat : s'.routes.lastChat = s.routes.lastChat
  elsewhere : ∀ id, id ∉ path → s'.routes.get? id = s.routes.get? id
  announced : s.outbox.Grows (fun _ g => ∃ dest ∈ (s.routes.learn path link).2,
    s.announcement dest = .ok g) s'.outbox

theorem learns_learnRoutes (s : Server) (msg : Message) (link : LinkId) :
    s.Learns msg.path link (s.learnRoutes msg link) where
  rest := s.exists_learnRoutes msg link
  lastChat := by rw [routes_learnRoutes, Routes.lastChat_learn]
  elsewhere id hid := by
    rw [routes_learnRoutes]
    obtain h | ⟨-, -, next, i, -, hi, -⟩ := s.routes.get?_learn msg.path link id
    · exact h
    · exact absurd (List.mem_reverse.1 (List.mem_of_getElem? hi)) hid
  announced := s.grows_learnRoutes link fun dest hdest _ _ hg => ⟨dest, hdest, hg⟩

/-- Bad messages change nothing. A call of the actions fails for a type that nothing is registered under
and for a content of another kind than the registered one, for no other reason, and then the server
is as before. A frame of an unregistered connection, one without a message, and one of a client that
is not chat are dropped without a trace; of a message of a neighbour that is for the server but is not
accepted remains what its path has taught. -/
theorem refusals_change_nothing (s : Server) :
    (∀ type msg s' why, s.obey (.execute type msg) = (s', .outcome (.error why)) ↔
      Refuses type msg.content.kind why ∧ s' = s) ∧
    (∀ msg s' why, s.obey (.executeMessage msg) = (s', .outcome (.error why)) ↔
      (msg.content.kind = .chat ∧ why = .internal (.noAction .chat)) ∧ s' = s) ∧
    (∀ action ∈ Action.all, action.kind ≠ .identity → ∀ msg s' why,
      s.obey (.receive action.kind msg) = (s', .outcome (.error why)) ↔
        (msg.content.kind ≠ action.kind ∧
          why = .contentMismatch action.type action.kind msg.content.kind) ∧ s' = s) ∧
    ∀ hooks link f,
      (s.routes.atLink link = none → s.handleFrame hooks link f = (s, none)) ∧
      ((∀ msg, f.message ≠ .ok msg) → s.handleFrame hooks link f = (s, none)) ∧
      (∀ r msg, s.routes.atLink link = some r → f.message = .ok msg →
        (r.2.isClient = true → ¬ (MessageType.isForClients f.type ∧ msg.content.kind = .chat) →
          s.handleFrame hooks link f = (s, none)) ∧
        (r.2.isClient = false → MessageType.isForClients f.type = false →
          s.otherRecipient? msg = none → hooks.claim s.identity msg = none →
          ∀ why, Refuses f.type msg.content.kind why → ∃ s', s.Learns msg.path link s' ∧
            s.handleFrame hooks link f = (s', none))) := by
  refine ⟨fun type msg s' why => ?_, fun msg s' why => ?_, fun action hmem hno msg s' why => ?_,
    fun hooks link f => ⟨handleFrame_of_unassigned, handleFrame_of_unreadable, fun r msg hat hmsg =>
      ⟨fun hc h => handleFrame_of_client hat hc hmsg h, fun hc ht hd hclaim why h =>
        ⟨_, s.learns_learnRoutes msg link, handleFrame_of_refuses hat hc hmsg ht hd hclaim h⟩⟩⟩⟩
  · rw [obey, attempt_eq_error_iff, execute_eq_error_iff]
  · rw [obey, attempt_eq_error_iff, executeMessage_eq_error_iff]
  · rw [obey, attempt_eq_error_iff, receive_eq_error_iff hmem]
    simp [hno]

/-- Server 3 asks for the token, through server 2. -/
def petition : Message := ⟨3, [3, 2], none, .mutexRequest 1⟩

/-- The request under a type that nothing is registered under. -/
def misfiled : Frame := ⟨5, 2, [3, 2, 3, 2, 0, 3, 1]⟩

/-- The request is dropped and the token stays where it is. But now the server knows the way to server 3
and has told it so. -/
theorem refusals_change_nothing_misfiled :
    misfiled.message = .ok petition ∧ Refuses misfiled.type .mutexRequest (.unknownMessageType 5) ∧
    keeper.obey (.execute misfiled.type petition) =
      (keeper, .outcome (.error (.unknownMessageType 5))) ∧
    keeper.obey (.receive .mutexToken petition) =
      (keeper, .outcome (.error (.contentMismatch MessageType.mutexToken .mutexToken .mutexRequest))) ∧
    keeper.handleFrame {} 7 misfiled = (keeper, none) ∧
    ∃ s', keeper.handleFrame {} 0 misfiled = (s', none) ∧
      keeper.exclusion.token.isSome = true ∧ s'.exclusion = keeper.exclusion ∧
      s'.routes.get? 2 = keeper.routes.get? 2 ∧ keeper.routes.get? 3 = none ∧
      s'.routes.get? 3 = some ⟨.server 2 2, 0⟩ ∧ (s'.outbox.waiting 0).length = 1 := by
  have hread : misfiled.message = .ok petition := by decide +kernel
  have hrefused : Refuses misfiled.type petition.content.kind (.unknownMessageType 5) :=
    .unknown (by decide)
  have hat : keeper.routes.atLink 0 = some (2, ⟨.server 1 2, 0⟩) := by decide +kernel
  obtain ⟨hexecute, -, hreceive, hframes⟩ := keeper.refusals_change_nothing
  obtain ⟨s', hlearns, hdropped⟩ := ((hframes {} 0 misfiled).2.2 _ petition hat hread).2 rfl
    (by decide) (by decide +kernel) (by decide +kernel) _ hrefused
  obtain rfl : (keeper.handleFrame {} 0 misfiled).1 = s' := by rw [hdropped]
  obtain ⟨outbox, hrest⟩ := hlearns.rest
  refine ⟨hread, hrefused, (hexecute _ _ _ _).2 ⟨hrefused, rfl⟩, ?_,
    (hframes {} 7 misfiled).1 (by decide +kernel), _, hdropped, by decide +kernel, by rw [hrest],
    by decide +kernel, by decide +kernel, by decide +kernel, by decide +kernel⟩
  exact (hreceive ⟨"SEND_TOKEN_MESSAGE", MessageType.mutexToken, .mutexToken⟩ (by decide) (by decide)
    petition keeper _).2 ⟨⟨by decide, rfl⟩, rfl⟩

end Server

end RelayMesh
