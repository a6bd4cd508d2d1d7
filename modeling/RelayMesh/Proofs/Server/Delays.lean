import RelayMesh.Proofs.Server.Steps

namespace RelayMesh

namespace Server

open RelayMesh.Action (Registered)

variable {s : Server} {type : MessageType} {msg : Message} {w : Withheld} {action : Action}

/-- Under a type that is not registered for its content a message is refused. -/
theorem execute_of_not_registered (h : ¬ Registered type msg.content.kind) :
    ∃ why, s.execute type msg = .error why := by
  unfold execute
  split
  · exact ⟨_, rfl⟩
  next action haction =>
    obtain ⟨hmem, htype⟩ := Action.ofType?_eq_some.1 haction
    rw [if_neg fun hkind => h ⟨action, hmem, htype, hkind.symm⟩]
    exact ⟨_, rfl⟩

theorem perform_of_not_registered (h : ¬ Registered type msg.content.kind) :
    s.perform type msg = s := by
  obtain ⟨why, hwhy⟩ := s.execute_of_not_registered h
  rw [perform, hwhy]

/-- The action for the content of a message is run, whatever type the message came under. -/
theorem release_of_action (hmem : action ∈ Action.all) (hkind : action.kind = w.msg.content.kind) :
    s.release w = s.perform action.type w.msg := by
  rw [release, executeMessage, Action.ofKind?_eq_some.2 ⟨hmem, hkind⟩, perform]

theorem release_of_chat (h : w.msg.content.kind = .chat) : s.release w = s := by
  rw [release, executeMessage, Action.ofKind?_eq_none.2 h]

section Dispatch

variable (ht : MessageType.isForClients type = false) (hd : s.otherRecipient? msg = none)

include ht hd

/-- Without interceptors a message for the server has its action run. -/
theorem dispatch_at_once : s.dispatch {} type msg = (s.perform type msg, none) :=
  s.dispatch_of_own {} ht hd

/-- An interceptor keeps the message, but not the type that it came under. -/
theorem dispatch_of_claim {hooks : Interception} {interceptor : Interceptor}
    (hclaim : hooks.claim s.identity msg = some interceptor) :
    s.dispatch hooks type msg = (s, some ⟨interceptor, msg⟩) := by
  rw [s.dispatch_of_own hooks ht hd, hclaim]

end Dispatch

/-- A message that is kept back changes nothing yet. Given to the server later, in any state, it does
what it would do if it came now under the type that is registered for its content, and if it is chat,
nothing. So it does what it would do under its own type, if that is the registered one; under any other
type it would be dropped. -/
theorem delayed_as_registered (ht : MessageType.isForClients type = false)
    (hd : s.otherRecipient? w.msg = none) :
    (∀ hooks, hooks.claim s.identity w.msg = some w.interceptor →
      s.dispatch hooks type w.msg = (s, some w)) ∧
    (Registered type w.msg.content.kind → s.dispatch {} type w.msg = (s.release w, none)) ∧
    (¬ Registered type w.msg.content.kind → s.dispatch {} type w.msg = (s, none) ∧
      ∃ why, s.execute type w.msg = .error why) ∧
    (∀ action ∈ Action.all, action.kind = w.msg.content.kind →
      s.dispatch {} action.type w.msg = (s.release w, none)) ∧
    (w.msg.content.kind = .chat → s.release w = s ∧
      s.executeMessage w.msg = .error (.internal (.noAction .chat))) := by
  have hregistered (action : Action) (hmem : action ∈ Action.all)
      (hkind : action.kind = w.msg.content.kind) :
      s.dispatch {} action.type w.msg = (s.release w, none) := by
    rw [dispatch_at_once (Action.isForClients_of_mem hmem) hd, release_of_action hmem hkind]
  refine ⟨fun hooks hclaim => dispatch_of_claim ht hd hclaim, ?_, fun hno => ?_, hregistered,
    fun hchat => ⟨release_of_chat hchat, ?_⟩⟩
  · rintro ⟨action, hmem, rfl, hkind⟩
    exact hregistered action hmem hkind
  · rw [dispatch_at_once ht hd, perform_of_not_registered hno]
    exact ⟨rfl, execute_of_not_registered hno⟩
  · rw [executeMessage, Action.ofKind?_eq_none.2 hchat, hchat]

/-- Server 1 has the token for itself, and a neighbour 2 over a connection. -/
def keeper : Server :=
  { ((Server.new 1 {}).startElection.addNeighbour 2 0) with outbox := Outbox.addLink .empty 0 4 }

/-- Server 2 wants to enter, and an interceptor keeps back its request. -/
def plea : Withheld where
  interceptor := { name := "later", owner := 1, pattern := { kind := some .mutexRequest }, condition := {} }
  msg := ⟨2, [2], none, .mutexRequest 1⟩

theorem delayed_as_registered_plea :
    keeper.otherRecipient? plea.msg = none ∧ Registered MessageType.mutexRequest .mutexRequest ∧
      keeper.dispatch {} MessageType.mutexRequest plea.msg = (keeper.release plea, none) ∧
      keeper.dispatch ⟨true, [plea.interceptor]⟩ MessageType.mutexRequest plea.msg =
        (keeper, some plea) ∧
      keeper.exclusion.token.isSome = true ∧ (keeper.release plea).exclusion.token = none := by
  have hd : keeper.otherRecipient? plea.msg = none := by decide +kernel
  have hregistered : Registered MessageType.mutexRequest .mutexRequest := by decide
  have ht : MessageType.isForClients MessageType.mutexRequest = false := rfl
  obtain ⟨hkept, hsame, -⟩ := delayed_as_registered ht hd
  exact ⟨hd, hregistered, hsame hregistered, hkept _ (by decide +kernel), by decide +kernel,
    by decide +kernel⟩

/-- A request under a type that nothing is registered under is dropped when it comes at once. When it
comes later, the server gives the token away for it. -/
theorem stray_type_comes_through :
    MessageType.isForClients 5 = false ∧ keeper.otherRecipient? plea.msg = none ∧
      (keeper.dispatch {} 5 plea.msg).1 = keeper ∧
      keeper.dispatch ⟨true, [plea.interceptor]⟩ 5 plea.msg = (keeper, some plea) ∧
      keeper.exclusion.token = some .fresh ∧ (keeper.release plea).exclusion.token = none ∧
      ¬ ∀ (s : Server) (type : MessageType) (w : Withheld), MessageType.isForClients type = false →
        s.otherRecipient? w.msg = none → s.release w = (s.dispatch {} type w.msg).1 := by
  have hd : keeper.otherRecipient? plea.msg = none := by decide +kernel
  have hdropped : (keeper.dispatch {} 5 plea.msg).1 = keeper := by decide +kernel
  have htoken : keeper.exclusion.token = some .fresh := by decide +kernel
  have hgiven : (keeper.release plea).exclusion.token = none := by decide +kernel
  refine ⟨by decide, hd, hdropped, by decide +kernel, htoken, hgiven, fun hclaim => ?_⟩
  rw [hclaim keeper 5 plea (by decide) hd, hdropped, htoken] at hgiven
  cases hgiven

end Server

end RelayMesh
