import RelayMesh.Proofs.Server.Debts
import RelayMesh.Proofs.Server.Sends

namespace RelayMesh

/-- A call starts at the server `id`, or it is the request `came` that is passed on. -/
def Outgoing.Relays (id : Id) (came : Option Message) (o : Outgoing) : Prop :=
  o.message.IsCall → o.SaidBy id ∨ o.message.content.kind = .mutexRequest ∧
    ∃ old ∈ came, old.IsCall ∧ o.message.sender = old.sender ∧ o.message.path = old.path

namespace Frame

/-- A call that is read from the frame starts at the server `id`, or it is the request `came` that has
gone on from there. -/
def Relays (id : Id) (came : Option Message) (f : Frame) : Prop :=
  ∀ msg, f.message = .ok msg → msg.IsCall →
    (msg.sender = id ∧ (∀ a, a ∈ msg.path ↔ a = id) ∧ (msg.content.kind = .electionToken →
      msg.recipient = none ∧ MessageType.isForClients f.type = false)) ∨
    msg.content.kind = .mutexRequest ∧ ∃ old ∈ came, old.IsCall ∧ msg.sender = old.sender ∧
      ∀ a, a ∈ msg.path ↔ a ∈ old.path ∨ a = id

theorem relays_of_not_isCall {id : Id} {came : Option Message} {f : Frame} {msg : Message}
    (h : f.Carries msg) (hm : ¬ msg.IsCall) : f.Relays id came := by
  intro read hread hcall
  unfold Message.IsCall at hm hcall
  rw [(h.header hread).2.2.2] at hcall
  exact absurd hcall hm

end Frame

/-- What a server writes for a send says what the send says. -/
theorem Outgoing.Relays.frame {o : Outgoing} {s : Server} {came : Option Message} {f : Frame}
    (h : o.Relays s.identity came)
    (hf : s.frame o.type (o.message.appendToPath s.identity) = .ok f) :
    f.Relays s.identity came := by
  intro read hread hcall
  obtain ⟨hsender, hpath, hrecipient, hkind⟩ := (Frame.carries_of_ofMessage hf).header hread
  rw [Message.sender_appendToPath] at hsender
  rw [Message.recipient_appendToPath] at hrecipient
  rw [Message.content_appendToPath] at hkind
  have hcalls : o.message.IsCall := by
    unfold Message.IsCall at hcall ⊢
    rwa [hkind] at hcall
  rcases h hcalls with hsaid | ⟨hrequest, old, hcame, holdCall, hold, holdPath⟩
  · refine .inl ⟨hsender.trans hsaid.sender, fun a => ?_, fun htoken => ?_⟩
    · rw [hpath, Message.mem_path_appendToPath, hsaid.path]
      simp
    · rw [Frame.type_of_ofMessage hf, hrecipient]
      exact ⟨hsaid.everybody (hkind ▸ htoken), hsaid.plain.1⟩
  · refine .inr ⟨hkind.trans hrequest, old, hcame, holdCall, hsender.trans hold, fun a => ?_⟩
    rw [hpath, ← holdPath, Message.mem_path_appendToPath]

namespace Server

/-- What a server does about `came`, or on its own account: it keeps its routes, it gets debts to the
sender of `came` only, and the calls that it sends are its own, or the request `came`. -/
structure Heeds (came : Option Message) (s s' : Server) : Prop where
  identity : s'.identity = s.identity
  entries : s'.routes.entries = s.routes.entries
  election : s'.election.own = s.election.own
  exclusion : s'.exclusion.own = s.exclusion.own
  owes : ∀ d, s'.Owes d → s.Owes d ∨ s.Owed came d
  outbox : s.outbox.Grows (fun _ f => f.Relays s.identity came) s'.outbox

variable {s s' s'' : Server} {came : Option Message} {msg : Message} {type : MessageType}
  {o : Outgoing}

theorem heeds_refl (came : Option Message) (s : Server) : Heeds came s s :=
  ⟨rfl, rfl, rfl, rfl, fun _ h => .inl h, Outbox.grows_refl _ _⟩

theorem Heeds.owed (h : Heeds came s s') : s'.Owed came = s.Owed came := by
  unfold Owed
  rw [h.identity]

theorem Heeds.trans (h : Heeds came s s') (h' : Heeds came s' s'') : Heeds came s s'' where
  identity := h'.identity.trans h.identity
  entries := h'.entries.trans h.entries
  election := h'.election.trans h.election
  exclusion := h'.exclusion.trans h.exclusion
  owes d hd := by
    rcases h'.owes d hd with hold | hnew
    · exact h.owes d hold
    · exact .inr (h.owed ▸ hnew)
  outbox := h.outbox.trans (h.identity ▸ h'.outbox)

theorem Heeds.named (h : Heeds came s s') (hn : s.Named) : s'.Named :=
  ⟨(h.election.trans hn.election).trans h.identity.symm,
    (h.exclusion.trans hn.exclusion).trans h.identity.symm⟩

/-- Nothing has changed that matters for debts. -/
theorem heeds_of_eq (hi : s'.identity = s.identity) (hr : s'.routes = s.routes)
    (he : s'.election = s.election) (hx : s'.exclusion = s.exclusion)
    (ho : s'.outbox = s.outbox) : Heeds came s s' := by
  refine ⟨hi, by rw [hr], by rw [he], by rw [hx], fun d hd => .inl (hd.of_eq he hx), ?_⟩
  rw [ho]
  exact Outbox.grows_refl _ _

theorem heeds_carryOut (s : Server) (ho : o.Relays s.identity came) :
    Heeds came s (s.carryOut o) := by
  have hgrows := s.grows_carryOut (P := fun _ f => f.Relays s.identity came)
    fun _ _ hf => ho.frame hf
  obtain ⟨outbox, hsent⟩ := s.exists_carryOut o
  rw [hsent] at hgrows ⊢
  exact ⟨rfl, rfl, rfl, rfl, fun d hd => .inl (hd.of_eq rfl rfl), hgrows⟩

theorem heeds_carryOutAll (s : Server) {sends : List Outgoing}
    (h : ∀ o ∈ sends, o.Relays s.identity came) : Heeds came s (s.carryOutAll sends) := by
  induction sends generalizing s with
  | nil => exact heeds_refl came s
  | cons o sends ih =>
    have hfirst := s.heeds_carryOut (h o List.mem_cons_self)
    refine hfirst.trans (ih (s.carryOut o) fun o ho => ?_)
    rw [hfirst.identity]
    exact h o (List.mem_cons_of_mem _ ho)

theorem heeds_enter (s : Server) : Heeds came s s.enter := by
  unfold enter armTimer
  split <;> exact heeds_of_eq rfl rfl rfl rfl rfl

theorem heeds_floodClients (s : Server) (except : Option Id) (type : MessageType) (msg : Message) :
    Heeds came s (s.floodClients except type msg).1 := by
  have hgrows : s.outbox.Grows (fun _ f => f.Relays s.identity came)
      (s.floodClients except type msg).1.outbox := by
    unfold floodClients
    split
    · exact Outbox.grows_refl _ _
    next n hn =>
      have hcall : ¬ msg.IsCall := by
        unfold Message.sequence? at hn
        split at hn
        next hc => simp [Message.IsCall, hc, Content.kind]
        · cases hn
      split
      · split
        · exact Outbox.grows_refl _ _
        next f hf =>
          have heach : s.outbox.Grows (fun _ f => f.Relays s.identity came)
              (s.outbox.pushEach f (eligible except msg s.routes.clients)).1 :=
            Outbox.grows_pushEach _ fun _ _ =>
              Frame.relays_of_not_isCall (Frame.carries_of_ofMessage hf) hcall
          dsimp only
          split <;> exact heach
      · exact Outbox.grows_refl _ _
  obtain ⟨lastChat, outbox, hsent⟩ := s.exists_floodClients except type msg
  rw [hsent] at hgrows ⊢
  exact ⟨rfl, rfl, rfl, rfl, fun d hd => .inl (hd.of_eq rfl rfl), hgrows⟩

section Steps

variable (hn : s.Named)

include hn

/-- A step of mutual exclusion with its sends. -/
theorem heeds_exclusion {step : Exclusion × List Outgoing} (h : s.exclusion.Owing came step) :
    Heeds came s ({ s with exclusion := step.1 }.carryOutAll step.2) := by
  have hstep : Heeds came s { s with exclusion := step.1 } := by
    refine ⟨rfl, rfl, rfl, h.own, fun d hd => ?_, Outbox.grows_refl _ _⟩
    cases hd with
    | echo hd => exact .inl (.echo hd)
    | token hd =>
      rcases h.requests d hd with hold | ⟨msg, hcame, hkind, hsender, hne⟩
      · exact .inl (.token hold)
      · exact .inr ⟨msg, hcame, hsender, .inr ⟨hkind, hn.exclusion ▸ hne⟩⟩
  refine hstep.trans (heeds_carryOutAll _ fun o ho hcall => ?_)
  rcases h.said o ho with hsaid | ⟨msg, hcame, hkind, rfl⟩
  · exact .inl (hn.exclusion ▸ hsaid)
  · exact .inr ⟨hkind, msg, hcame, .inr hkind, rfl, rfl⟩

theorem heeds_applyExclusion {step : Exclusion × Exclusion.Outcome}
    (h : s.exclusion.Owing came (step.1, step.2.sends)) :
    Heeds came s (s.applyExclusion step) := by
  have hsent := heeds_exclusion hn h
  unfold applyExclusion
  dsimp only
  split
  · exact hsent.trans (heeds_enter _)
  · exact hsent

/-- A step of the election with its sends, upon which a leader makes the token. -/
theorem heeds_applyElection {step : Election × List Outgoing} {caller : Option Id}
    (h : s.election.Owing caller step) (hc : ∀ d ∈ caller, ∃ msg ∈ came, d = msg.sender ∧
      msg.content.kind = .electionToken) : Heeds came s (s.applyElection step) := by
  have hstep : Heeds came s { s with election := step.1 } := by
    refine ⟨rfl, rfl, h.own, rfl, fun d hd => ?_, Outbox.grows_refl _ _⟩
    cases hd with
    | echo hd =>
      refine (h.parent d hd).imp .echo fun hcaller => ?_
      obtain ⟨msg, hcame, hsender, hkind⟩ := hc d hcaller
      exact ⟨msg, hcame, hsender, .inl hkind⟩
    | token hd => exact .inl (.token hd)
  have hsent : Heeds came s ({ s with election := step.1 }.carryOutAll step.2) :=
    hstep.trans (heeds_carryOutAll _ fun o ho _ => .inl (hn.election ▸ h.said o ho))
  unfold applyElection
  dsimp only
  split
  · exact hsent.trans (heeds_applyExclusion (hsent.named hn) (Exclusion.owing_mint _ came))
  · exact hsent

theorem heeds_startElection : Heeds came s s.startElection :=
  heeds_applyElection hn (Election.owing_start _ _) (by simp)

theorem heeds_requestSection : Heeds came s s.requestSection :=
  heeds_applyExclusion hn (Exclusion.owing_request _ came)

theorem heeds_leave (stay : Option Nat) : Heeds came s (s.leave stay) := by
  unfold leave
  split
  · exact heeds_exclusion hn (Exclusion.owing_release _ came)
  · exact heeds_refl came s

theorem heeds_expire : Heeds came s s.expire := by
  have each (due : List Timer) : ∀ s : Server, s.Named → Heeds came s (due.foldl fire s) := by
    induction due with
    | nil => exact fun s _ => heeds_refl came s
    | cons timer due ih =>
      intro s hn
      have hfired : Heeds came s (s.fire timer) := heeds_leave hn _
      exact hfired.trans (ih _ (hfired.named hn))
  have hstart : Heeds came s { s with timers := (s.timers.partition (·.due ≤ s.clock)).2 } :=
    heeds_of_eq rfl rfl rfl rfl rfl
  exact hstart.trans (each _ _ (hstart.named hn))

theorem heeds_advance (ms : Nat) : Heeds came s (s.advance ms) := by
  have hstart : Heeds came s { s with clock := s.clock + ms } := heeds_of_eq rfl rfl rfl rfl rfl
  exact hstart.trans (heeds_expire (hstart.named hn))

/-- Handling a message, whatever its kind. A call has to be the one that has come. -/
theorem heeds_receive {kind : Kind} (hcame : msg.IsCall → came = some msg)
    (hkind : msg.IsCall → msg.content.kind = kind) (h : s.receive kind msg = .ok s') :
    Heeds came s s' := by
  cases kind with
  | identity =>
    simp only [receive, receiveIdentity, Except.ok.injEq] at h
    rw [← h]
    exact s.heeds_carryOut (o := .flood none MessageType.identity { msg with recipient := none })
      fun hcall => absurd hcall (Message.not_isCall_of_identity (hkind hcall))
  | electionToken =>
    simp only [receive, receiveElectionToken, mismatch] at h
    split at h
    next x hc =>
      cases h
      have hmsg : msg.content.kind = .electionToken := by rw [hc]; rfl
      refine heeds_applyElection hn (Election.owing_onToken _ _ _ _) fun d hd => ?_
      exact ⟨msg, hcame (.inl hmsg), (Option.some.inj hd).symm, hmsg⟩
    · cases h
  | electionLeader =>
    simp only [receive, receiveElectionLeader, mismatch] at h
    split at h
    · cases h
      exact heeds_applyElection hn (Election.owing_onLeader _ _ _) (by simp)
    · cases h
  | mutexRequest =>
    simp only [receive, receiveMutexRequest, mismatch] at h
    split at h
    next n hc =>
      cases h
      rw [hcame (.inr (by rw [hc]; rfl))]
      exact heeds_exclusion hn (Exclusion.owing_onRequest _ msg)
    · cases h
  | mutexToken =>
    simp only [receive, receiveMutexToken, mismatch] at h
    split at h
    · cases h
      exact heeds_applyExclusion hn (Exclusion.owing_onToken _ came _)
    · cases h
  | chat => cases h

section Message

variable (hcame : msg.IsCall → came = some msg)

include hcame

theorem heeds_execute (h : s.execute type msg = .ok s') : Heeds came s s' := by
  unfold execute at h
  split at h
  · cases h
  · split at h
    next hkind => exact heeds_receive hn hcame (fun _ => hkind) h
    · cases h

theorem heeds_executeMessage (h : s.executeMessage msg = .ok s') : Heeds came s s' := by
  unfold executeMessage at h
  split at h
  · cases h
  · exact heeds_execute hn hcame h

theorem heeds_perform (type : MessageType) : Heeds came s (s.perform type msg) := by
  unfold perform
  split
  next s' h => exact heeds_execute hn hcame h
  next => exact heeds_refl came s

end Message

/-- A message that was kept back is handled. -/
theorem heeds_release (w : Withheld) : Heeds (some w.msg) s (s.release w) := by
  unfold release
  split
  next s' h => exact heeds_executeMessage hn (fun _ => rfl) h
  next => exact heeds_refl _ s

end Steps

/-- A request that has come may go on as it is. -/
theorem relays_of_message {id : Id} (ho : o.message = msg) (hcame : msg.IsCall → came = some msg)
    (hk : msg.content.kind ≠ .electionToken) : o.Relays id came := by
  intro hcall
  rw [ho] at hcall ⊢
  exact .inr ⟨hcall.resolve_left hk, msg, hcame hcall, hcall, rfl, rfl⟩

theorem heeds_relayChat (s : Server) (type : MessageType) (hcame : msg.IsCall → came = some msg)
    (hk : msg.content.kind ≠ .electionToken) : Heeds came s (s.relayChat type msg) := by
  have hflood : Heeds came s (s.flood (some msg.sender) type msg).1 :=
    s.heeds_carryOut (o := .flood (some msg.sender) type msg) (relays_of_message rfl hcame hk)
  exact hflood.trans (heeds_floodClients _ _ type msg)

/-- A wave is for everybody and under a type of servers, so it is neither relayed nor forwarded. -/
theorem heeds_dispatch (hn : s.Named) (hooks : Interception)
    (ht : msg.content.kind = .electionToken →
      msg.recipient = none ∧ MessageType.isForClients type = false) :
    Heeds (some msg) s (s.dispatch hooks type msg).1 := by
  unfold dispatch
  split
  next htype =>
    refine s.heeds_relayChat type (fun _ => rfl) fun hk => ?_
    rw [(ht hk).2] at htype
    cases htype
  · split
    next dest hdest =>
      refine s.heeds_carryOut (o := .toServer dest type msg)
        (relays_of_message rfl (fun _ => rfl) fun hk => ?_)
      simp [otherRecipient?, (ht hk).1] at hdest
    · split
      · exact heeds_refl _ s
      · exact heeds_perform hn (fun _ => rfl) type

theorem heeds_announceTo (s : Server) (dest : Id) : Heeds came s (s.announceTo dest) :=
  s.heeds_carryOut fun hcall => absurd hcall (Message.not_isCall_of_identity rfl)

/-- Once it has learned from a path, the server announces itself. -/
theorem heeds_learnRoutes (s : Server) (msg : Message) (link : LinkId) :
    Heeds came { s with routes := (s.routes.learn msg.path link).1 } (s.learnRoutes msg link) := by
  have each (learned : List Id) : ∀ s : Server, Heeds came s (learned.foldl announceTo s) := by
    induction learned with
    | nil => exact heeds_refl came
    | cons dest learned ih => exact fun s => (s.heeds_announceTo dest).trans (ih _)
  exact each _ _

/-- A client makes the server relay chat, which is no call. -/
theorem heeds_arrive_client (hooks : Interception) {link : LinkId} {f : Frame}
    (hr : ∀ r, s.routes.atLink link = some r → r.2.isClient = true) :
    Heeds came s (s.arrive hooks link f).1 := by
  unfold arrive
  split
  · exact heeds_refl came s
  · unfold handleFrame
    split
    next id route msg hat hmsg =>
      have hc : route.isClient = true := hr (id, route) hat
      simp only [hc, if_true]
      split
      next hchat =>
        refine s.heeds_relayChat f.type (fun hcall => ?_) (by rw [hchat.2]; nofun)
        simp [Message.IsCall, hchat.2] at hcall
      · exact heeds_refl came s
    next => exact heeds_refl came s

end Server

/-- No call comes with the command. -/
def Command.NoCall (c : Command) : Prop := ∀ msg ∈ c.message?, ¬ msg.IsCall

instance : DecidablePred Command.NoCall := fun c =>
  inferInstanceAs (Decidable (∀ msg ∈ c.message?, ¬ msg.IsCall))

namespace Server

variable {s s' : Server} {came : Option Message}

theorem heeds_attempt {step : Except Fault Server} (h : ∀ s', step = .ok s' → Heeds came s s') :
    Heeds came s (s.attempt step).1 := by
  unfold attempt
  split
  next s' => exact h s' rfl
  next => exact heeds_refl came s

theorem heeds_obey (hn : s.Named) {c : Command} (hc : c.NoCall) : Heeds came s (s.obey c).1 := by
  have hdown : Heeds came s s.shutdown := heeds_of_eq rfl rfl rfl rfl rfl
  have sends (msg : Message) (hm : msg ∈ c.message?) (o : Outgoing) (ho : o.message = msg) :
      Heeds came s (s.carryOut o) := s.heeds_carryOut fun hcall => absurd (ho ▸ hcall) (hc msg hm)
  cases c with
  | announce =>
    exact s.heeds_carryOut (o := .flood none MessageType.identity (.new s.identity .identity))
      fun hcall => absurd hcall (Message.not_isCall_of_identity rfl)
  | elect => exact heeds_startElection hn
  | request => exact heeds_requestSection hn
  | release => exact heeds_leave hn none
  | shutdown => exact hdown
  | leave stay => exact heeds_leave hn (some stay)
  | console line =>
    simp only [obey, console]
    split
    · exact hdown
    · split
      · exact heeds_startElection hn
      · split
        · exact heeds_requestSection hn
        · exact heeds_refl came s
  | send dest type msg =>
    refine heeds_attempt fun s' h => ?_
    have hsent := sends msg rfl (.toServer dest type msg) rfl
    rwa [carryOut, h] at hsent
  | flood except type msg => exact sends msg rfl (.flood except type msg) rfl
  | floodClients except type msg => exact s.heeds_floodClients except type msg
  | execute type msg =>
    exact heeds_attempt fun s' h => heeds_execute hn (fun hcall => absurd hcall (hc msg rfl)) h
  | executeMessage msg =>
    exact heeds_attempt fun s' h => heeds_executeMessage hn (fun hcall => absurd hcall (hc msg rfl)) h
  | receive kind msg =>
    exact heeds_attempt fun s' h => heeds_receive hn (fun hcall => absurd hcall (hc msg rfl))
      (fun hcall => absurd hcall (hc msg rfl)) h
  | query dest => exact heeds_refl came s

end Server

end RelayMesh
