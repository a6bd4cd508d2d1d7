import RelayMesh.Proofs.Server.Sends
import RelayMesh.Proofs.Server.Steps

namespace RelayMesh

/-- The send is for clients, or it is an announcement. -/
def Outgoing.Harmless (o : Outgoing) : Prop :=
  MessageType.isForClients o.type = true ∨
    o.type = MessageType.identity ∧ o.message.content.kind = .identity

namespace Frame

/-- The frame is for clients, or all that can be read from it is an announcement. -/
def Harmless (f : Frame) : Prop :=
  MessageType.isForClients f.type = true ∨
    f.type = MessageType.identity ∧ ∀ msg, f.message = .ok msg → msg.content.kind = .identity

end Frame

theorem Outgoing.Harmless.frame {o : Outgoing} (h : o.Harmless) {s : Server} {id : Id} {f : Frame}
    (hf : s.frame o.type (o.message.appendToPath id) = .ok f) : f.Harmless := by
  refine h.imp (fun htype => ?_) fun ⟨htype, hkind⟩ => ⟨?_, fun msg hread => ?_⟩
  · rwa [Frame.type_of_ofMessage hf]
  · rwa [Frame.type_of_ofMessage hf]
  · have hheader := ((Frame.carries_of_ofMessage hf).header hread).2.2.2
    rwa [Message.content_appendToPath, hkind] at hheader

namespace Server

/-- The server has sent something harmless at most; its algorithms and its timers are as before. -/
structure Undisturbed (s s' : Server) : Prop where
  election : s'.election = s.election
  exclusion : s'.exclusion = s.exclusion
  clock : s'.clock = s.clock
  timers : s'.timers = s.timers
  outbox : s.outbox.Grows (fun _ f => f.Harmless) s'.outbox

variable {s s' s'' : Server} {msg : Message} {type : MessageType}

theorem undisturbed_refl (s : Server) : Undisturbed s s :=
  ⟨rfl, rfl, rfl, rfl, Outbox.grows_refl _ _⟩

theorem Undisturbed.trans (h : Undisturbed s s') (h' : Undisturbed s' s'') : Undisturbed s s'' :=
  ⟨h'.election.trans h.election, h'.exclusion.trans h.exclusion, h'.clock.trans h.clock,
    h'.timers.trans h.timers, h.outbox.trans h'.outbox⟩

theorem undisturbed_carryOut (s : Server) {o : Outgoing} (ho : o.Harmless) :
    Undisturbed s (s.carryOut o) := by
  have hgrows := s.grows_carryOut (P := fun _ f => f.Harmless) fun _ _ hf => ho.frame hf
  obtain ⟨outbox, hsent⟩ := s.exists_carryOut o
  rw [hsent] at hgrows ⊢
  exact ⟨rfl, rfl, rfl, rfl, hgrows⟩

theorem undisturbed_floodClients (s : Server) (except : Option Id)
    (ht : MessageType.isForClients type = true) (msg : Message) :
    Undisturbed s (s.floodClients except type msg).1 := by
  have hgrows := s.grows_floodClients (P := fun _ f => f.Harmless) except type msg
    fun _ _ _ _ hf => .inl (by rwa [Frame.type_of_ofMessage hf])
  obtain ⟨lastChat, outbox, hsent⟩ := s.exists_floodClients except type msg
  rw [hsent] at hgrows ⊢
  exact ⟨rfl, rfl, rfl, rfl, hgrows⟩

theorem undisturbed_relayChat (s : Server) (ht : MessageType.isForClients type = true)
    (msg : Message) : Undisturbed s (s.relayChat type msg) := by
  have hflood : Undisturbed s (s.flood (some msg.sender) type msg).1 :=
    s.undisturbed_carryOut (o := .flood (some msg.sender) type msg) (.inl ht)
  exact hflood.trans (undisturbed_floodClients _ _ ht msg)

/-- The algorithms do not look at routes. -/
theorem undisturbed_learnRoutes (s : Server) (msg : Message) (link : LinkId) :
    Undisturbed s (s.learnRoutes msg link) := by
  have hgrows : s.outbox.Grows (fun _ f => f.Harmless) (s.learnRoutes msg link).outbox :=
    s.grows_learnRoutes link fun dest _ _ _ hf => Outgoing.Harmless.frame
      (o := .toServer dest MessageType.identity
        ((Message.new s.identity .identity).addressedTo dest)) (.inr ⟨rfl, rfl⟩) hf
  obtain ⟨outbox, hlearned⟩ := s.exists_learnRoutes msg link
  rw [hlearned] at hgrows ⊢
  exact ⟨rfl, rfl, rfl, rfl, hgrows⟩

/-- An announcement is passed on, and what has only its type is dropped. -/
theorem undisturbed_execute (h : s.execute MessageType.identity msg = .ok s') :
    Undisturbed s s' := by
  have haction : Action.ofType? MessageType.identity =
      some ⟨"IDENTITY_MESSAGE", MessageType.identity, .identity⟩ := by decide
  simp only [execute, haction] at h
  split at h
  next hkind =>
    cases h
    exact s.undisturbed_carryOut (o := .flood none MessageType.identity { msg with recipient := none })
      (.inr ⟨rfl, hkind⟩)
  next => cases h

theorem undisturbed_perform (s : Server) (msg : Message) :
    Undisturbed s (s.perform MessageType.identity msg) := by
  unfold perform
  split
  next s' h => exact undisturbed_execute h
  next => exact undisturbed_refl s

/-- To get an announcement later does no harm either. -/
theorem undisturbed_release (s : Server) {w : Withheld} (hw : w.msg.content.kind = .identity) :
    Undisturbed s (s.release w) := by
  have haction : Action.ofKind? .identity =
      some ⟨"IDENTITY_MESSAGE", MessageType.identity, .identity⟩ := by decide
  unfold release executeMessage
  rw [hw, haction]
  dsimp only
  split
  next s' h => exact undisturbed_execute h
  next => exact undisturbed_refl s

section Dispatch

variable (ht : MessageType.isForClients type = true ∨
  type = MessageType.identity ∧ msg.content.kind = .identity)

include ht

theorem undisturbed_dispatch (hooks : Interception) (s : Server) :
    Undisturbed s (s.dispatch hooks type msg).1 := by
  unfold dispatch
  split
  next hclients => exact s.undisturbed_relayChat hclients msg
  next hservers =>
    obtain ⟨rfl, hkind⟩ := ht.resolve_left hservers
    split
    next dest _ =>
      exact s.undisturbed_carryOut (o := .toServer dest MessageType.identity msg) (.inr ⟨rfl, hkind⟩)
    · split
      · exact undisturbed_refl s
      · exact s.undisturbed_perform msg

/-- Of harmless messages only announcements are kept back. -/
theorem kind_of_withheld_dispatch {hooks : Interception} {w : Withheld}
    (hw : (s.dispatch hooks type msg).2 = some w) : w.msg.content.kind = .identity := by
  rw [(withheld_dispatch hw).1]
  rcases ht with hclients | ⟨-, hkind⟩
  · simp only [dispatch, hclients, if_true] at hw
    cases hw
  · exact hkind

end Dispatch

/-- Whatever a client sends, it changes nothing but the queues and which chat has been given out. -/
theorem undisturbed_arrive_client (hooks : Interception) {link : LinkId} {r : Id × Route}
    (hr : s.routes.atLink link = some r) (hc : r.2.isClient = true) (f : Frame) :
    Undisturbed s (s.arrive hooks link f).1 ∧
      (s.arrive hooks link f).1.routes.entries = s.routes.entries ∧
        (s.arrive hooks link f).2 = none := by
  unfold arrive handleFrame
  split
  · exact ⟨undisturbed_refl s, rfl, rfl⟩
  · rw [hr]
    split
    next id route msg hat hmsg =>
      cases hat
      rw [if_pos hc]
      split
      next hchat =>
        exact ⟨s.undisturbed_relayChat hchat.1 msg,
          (sends_relayChat s f.type msg.stems_self).entries, rfl⟩
      next => exact ⟨undisturbed_refl s, rfl, rfl⟩
    next => exact ⟨undisturbed_refl s, rfl, rfl⟩

/-- A harmless frame does no harm, wherever it comes from. -/
theorem undisturbed_arrive (hooks : Interception) (s : Server) (link : LinkId) {f : Frame}
    (hf : f.Harmless) : Undisturbed s (s.arrive hooks link f).1 ∧
      ∀ w ∈ (s.arrive hooks link f).2, w.msg.content.kind = .identity := by
  cases hr : s.routes.atLink link with
  | none =>
    have hdropped : s.arrive hooks link f = (s, none) := by simp [arrive, handleFrame, hr]
    rw [hdropped]
    exact ⟨undisturbed_refl s, by simp⟩
  | some r =>
    cases hc : r.2.isClient with
    | true =>
      obtain ⟨hclient, -, hnone⟩ := undisturbed_arrive_client hooks hr hc f
      exact ⟨hclient, by simp [hnone]⟩
    | false =>
      unfold arrive
      split
      · exact ⟨undisturbed_refl s, by simp⟩
      · cases hm : f.message with
        | error why =>
          rw [handleFrame_of_error hm]
          exact ⟨undisturbed_refl s, by simp⟩
        | ok msg =>
          have ht := hf.imp_right fun h => And.intro h.1 (h.2 msg hm)
          rw [handleFrame_of_server hr hc hm]
          exact ⟨(s.undisturbed_learnRoutes msg r.2.link).trans (undisturbed_dispatch ht hooks _),
            fun w hw => kind_of_withheld_dispatch ht hw⟩

end Server

end RelayMesh
