import RelayMesh.Server.Command

namespace RelayMesh

namespace Outgoing

/-- The message of a send. -/
def message : Outgoing → Message
  | .flood _ _ msg => msg
  | .toServer _ _ msg => msg

def type : Outgoing → MessageType
  | .flood _ type _ => type
  | .toServer _ type _ => type

/-- A send that does not concern clients: it is no chat, by its content as by its type. -/
def Plain (o : Outgoing) : Prop :=
  MessageType.isForClients o.type = false ∧ o.message.content.kind ≠ .chat

/-- A send of an algorithm that starts here. -/
structure Own (o : Outgoing) : Prop where
  path : o.message.path = []
  plain : o.Plain
  registered : Action.Registered o.type o.message.content.kind

end Outgoing

section Algorithms

open Outgoing (Own)

namespace Election

theorem own_start (e : Election) (n : Nat) : ∀ o ∈ (e.start n).2, Own o := by
  intro o ho
  unfold start at ho
  split at ho
  · simp at ho
  · dsimp only at ho
    split at ho
    · simp at ho
    · rw [List.mem_singleton.1 ho]
      exact ⟨rfl, ⟨rfl, nofun⟩, Action.registered_iff.2 rfl⟩

theorem own_join (e : Election) (sender initiator : Id) :
    ∀ o ∈ (e.join sender initiator).2, Own o := by
  intro o ho
  unfold join at ho
  split at ho
  · simp at ho
  · rw [List.mem_singleton.1 ho]
    exact ⟨rfl, ⟨rfl, nofun⟩, Action.registered_iff.2 rfl⟩

theorem own_finishWave (e : Election) (initiator : Id) : ∀ o ∈ e.finishWave initiator, Own o := by
  intro o ho
  unfold finishWave at ho
  split at ho
  · rw [List.mem_singleton.1 ho]
    exact ⟨rfl, ⟨rfl, nofun⟩, Action.registered_iff.2 rfl⟩
  · split at ho
    · rw [List.mem_singleton.1 ho]
      exact ⟨rfl, ⟨rfl, nofun⟩, Action.registered_iff.2 rfl⟩
    · simp at ho

theorem own_countEcho (e : Election) (initiator : Id) (n : Nat) :
    ∀ o ∈ (e.countEcho initiator n).2, Own o := by
  intro o ho
  unfold countEcho at ho
  split at ho
  · dsimp only at ho
    split at ho
    · exact own_finishWave _ _ o ho
    · simp at ho
  · simp at ho

theorem own_onToken (e : Election) (sender initiator : Id) (n : Nat) :
    ∀ o ∈ (e.onToken sender initiator n).2, Own o := fun o ho =>
  (List.mem_append.1 ho).elim (own_join _ _ _ o) (own_countEcho _ _ _ o)

theorem own_onLeader (e : Election) (initiator : Id) (n : Nat) :
    ∀ o ∈ (e.onLeader initiator n).2, Own o := by
  have hrelay : ∀ o ∈ (if e.leaderEchoes = 0 ∧ initiator ≠ e.own then
      [Outgoing.flood none MessageType.electionLeader (e.leaderMessage initiator)]
    else []), Own o := by
    intro o ho
    split at ho
    · rw [List.mem_singleton.1 ho]
      exact ⟨rfl, ⟨rfl, nofun⟩, Action.registered_iff.2 rfl⟩
    · simp at ho
  intro o ho
  unfold onLeader at ho
  dsimp only at ho
  split at ho <;> exact hrelay o ho

end Election

namespace Exclusion

theorem own_handOff (x : Exclusion) (dest : Id) : ∀ o ∈ (x.handOff dest).2, Own o := by
  intro o ho
  unfold handOff at ho
  split at ho
  · simp at ho
  · rw [List.mem_singleton.1 ho]
    exact ⟨rfl, ⟨rfl, nofun⟩, Action.registered_iff.2 rfl⟩

theorem own_passOn (x : Exclusion) : ∀ o ∈ x.passOn.2, Own o := by
  intro o ho
  unfold passOn at ho
  split at ho
  · simp at ho
  · exact own_handOff x _ o ho

theorem own_release (x : Exclusion) : ∀ o ∈ x.release.2, Own o := by
  intro o ho
  unfold release at ho
  split at ho
  · exact own_passOn _ o ho
  · simp at ho

theorem own_onToken (x : Exclusion) (token : Token) : ∀ o ∈ (x.onToken token).2.sends, Own o := by
  intro o ho
  unfold onToken at ho
  split at ho
  · simp at ho
  · dsimp only at ho
    split at ho
    · simp at ho
    · exact own_passOn _ o ho

theorem own_mint (x : Exclusion) : ∀ o ∈ x.mint.2.sends, Own o := by
  intro o ho
  unfold mint at ho
  split at ho
  · simp at ho
  · exact own_onToken _ _ o ho

theorem own_request (x : Exclusion) : ∀ o ∈ x.request.2.sends, Own o := by
  intro o ho
  unfold request at ho
  split at ho
  · simp at ho
  · split at ho
    · simp at ho
    · rw [List.mem_singleton.1 ho]
      exact ⟨rfl, ⟨rfl, nofun⟩, Action.registered_iff.2 rfl⟩

theorem own_serve (x : Exclusion) (requester : Id) : ∀ o ∈ (x.serve requester).2, Own o := by
  intro o ho
  unfold serve at ho
  split at ho
  · simp at ho
  · split at ho
    · exact own_handOff _ _ o ho
    · simp at ho

/-- Of what follows from a request, only the request itself does not start here. -/
theorem own_onRequest (x : Exclusion) (msg : Message) :
    ∀ o ∈ (x.onRequest msg).2, o = .flood none MessageType.mutexRequest msg ∨ Own o := by
  intro o ho
  unfold onRequest at ho
  split at ho
  · split at ho
    · simp at ho
    · rcases List.mem_append.1 ho with hnote | hserve
      · unfold noteRequest at hnote
        split at hnote
        · exact .inl (List.mem_singleton.1 hnote)
        · simp at hnote
      · exact .inr (own_serve _ _ o hserve)
  · simp at ho

end Exclusion

end Algorithms

namespace Server

theorem sendTo_of_route {s : Server} {dest : Id} {route : Route} (hid : dest ≠ s.identity)
    (hroute : s.routes.get? dest = some route) (type : MessageType) (msg : Message) :
    s.sendTo dest type msg = do
      let frame ← s.frame type (msg.appendToPath s.identity)
      let outbox ← s.outbox.push route.link frame
      return { s with outbox } := by
  simp only [sendTo, if_neg hid, hroute]

/-- A message for one server goes into the queue of its route, in a frame with this server on its
path. -/
theorem sendTo_eq_ok_iff {s s' : Server} {dest : Id} {type : MessageType} {msg : Message} :
    s.sendTo dest type msg = .ok s' ↔ dest ≠ s.identity ∧ ∃ route f outbox,
      s.routes.get? dest = some route ∧ s.frame type (msg.appendToPath s.identity) = .ok f ∧
        s.outbox.push route.link f = .ok outbox ∧ s' = { s with outbox } := by
  constructor
  · intro h
    unfold sendTo at h
    split at h
    · cases h
    next hid =>
      split at h
      · cases h
      next route hget =>
        simp only [Fault.bind_eq_ok_iff] at h
        obtain ⟨f, hf, outbox, hpush, ⟨⟩⟩ := h
        exact ⟨hid, route, f, outbox, hget, hf, hpush, rfl⟩
  · rintro ⟨hid, route, f, outbox, hroute, hf, hpush, rfl⟩
    simp only [sendTo_of_route hid hroute, Fault.bind_eq_ok_iff]
    exact ⟨f, hf, outbox, hpush, rfl⟩

/-- A send waits in the outbox; nothing else changes. -/
theorem exists_carryOut (s : Server) (o : Outgoing) : ∃ outbox, s.carryOut o = { s with outbox } := by
  cases o with
  | flood except type msg =>
    simp only [carryOut, flood]
    split
    · exact ⟨s.outbox, rfl⟩
    · exact ⟨_, rfl⟩
  | toServer dest type msg =>
    simp only [carryOut]
    split
    next s' hs =>
      obtain ⟨-, route, f, outbox, -, -, -, rfl⟩ := sendTo_eq_ok_iff.1 hs
      exact ⟨outbox, rfl⟩
    · exact ⟨s.outbox, rfl⟩

/-- A message for one server goes into the queue of its route, or there is a reason why not, and
nothing happens. -/
theorem carryOut_cases (s : Server) (dest : Id) (type : MessageType) (msg : Message) :
    (∃ route f outbox, s.routes.get? dest = some route ∧
      s.frame type (msg.appendToPath s.identity) = .ok f ∧ s.outbox.push route.link f = .ok outbox ∧
        s.carryOut (.toServer dest type msg) = { s with outbox }) ∨
    s.carryOut (.toServer dest type msg) = s ∧ (dest = s.identity ∨
      ∀ route, s.routes.get? dest = some route →
        (∀ f, s.frame type (msg.appendToPath s.identity) ≠ .ok f) ∨
          ∃ f, ∀ outbox, s.outbox.push route.link f ≠ .ok outbox) := by
  cases hsend : s.sendTo dest type msg with
  | ok s' =>
    obtain ⟨-, route, f, outbox, hroute, hf, hpush, rfl⟩ := sendTo_eq_ok_iff.1 hsend
    exact .inl ⟨route, f, outbox, hroute, hf, hpush, by rw [carryOut, hsend]⟩
  | error why =>
    refine .inr ⟨by rw [carryOut, hsend], ?_⟩
    by_cases hid : dest = s.identity
    · exact .inl hid
    refine .inr fun route hroute => ?_
    cases hf : s.frame type (msg.appendToPath s.identity) with
    | error why => exact .inl nofun
    | ok f =>
      refine .inr ⟨f, fun outbox hpush => ?_⟩
      rw [sendTo_eq_ok_iff.2 ⟨hid, route, f, outbox, hroute, hf, hpush, rfl⟩] at hsend
      cases hsend

/-- What no send changes. -/
structure Kept (s s' : Server) : Prop where
  identity : s'.identity = s.identity
  config : s'.config = s.config
  down : s'.down = s.down
  minted : s'.minted = s.minted
  routes : s'.routes = s.routes

/-- The servers do not differ in anything that matters for sending. -/
structure Same (s s' : Server) : Prop extends Kept s s' where
  outbox : s'.outbox = s.outbox

/-- The server has carried out sends that `ok` admits. -/
inductive Acts (ok : Outgoing → Prop) (s : Server) : Server → Prop
  | refl : Acts ok s s
  | send {s' : Server} {o : Outgoing} (h : Acts ok s s') (ho : ok o) : Acts ok s (s'.carryOut o)
  | same {s' s'' : Server} (h : Acts ok s s') (hs : s'.Same s'') : Acts ok s s''

variable {ok : Outgoing → Prop} {s s' s'' : Server} {msg : Message}

theorem Acts.trans (h : Acts ok s s') (h' : Acts ok s' s'') : Acts ok s s'' := by
  induction h' with
  | refl => exact h
  | send _ ho ih => exact ih.send ho
  | same _ hs ih => exact ih.same hs

theorem acts_same (h : s.Same s') : Acts ok s s' := .same .refl h

theorem kept_refl (s : Server) : s.Kept s := ⟨rfl, rfl, rfl, rfl, rfl⟩

theorem Kept.trans (h : s.Kept s') (h' : s'.Kept s'') : s.Kept s'' :=
  ⟨h'.identity.trans h.identity, h'.config.trans h.config, h'.down.trans h.down,
    h'.minted.trans h.minted, h'.routes.trans h.routes⟩

theorem kept_carryOut (s : Server) (o : Outgoing) : s.Kept (s.carryOut o) := by
  obtain ⟨outbox, h⟩ := s.exists_carryOut o
  rw [h]
  exact ⟨rfl, rfl, rfl, rfl, rfl⟩

theorem Acts.kept (h : Acts ok s s') : s.Kept s' := by
  induction h with
  | refl => exact kept_refl s
  | send _ _ ih => exact ih.trans (kept_carryOut _ _)
  | same _ hs ih => exact ih.trans hs.toKept

theorem acts_carryOutAll (s : Server) {sends : List Outgoing} (h : ∀ o ∈ sends, ok o) :
    Acts ok s (s.carryOutAll sends) := by
  induction sends generalizing s with
  | nil => exact .refl
  | cons o sends ih =>
    have first : Acts ok s (s.carryOut o) := .send .refl (h o List.mem_cons_self)
    exact first.trans (ih (s.carryOut o) fun o ho => h o (List.mem_cons_of_mem _ ho))

theorem acts_enter (s : Server) : Acts ok s s.enter := by
  unfold enter armTimer
  split <;> exact acts_same ⟨⟨rfl, rfl, rfl, rfl, rfl⟩, rfl⟩

theorem acts_applyExclusion (s : Server) {step : Exclusion × Exclusion.Outcome}
    (h : ∀ o ∈ step.2.sends, ok o) : Acts ok s (s.applyExclusion step) := by
  have hstart : Acts ok s { s with exclusion := step.1 } := acts_same ⟨⟨rfl, rfl, rfl, rfl, rfl⟩, rfl⟩
  have hsent := hstart.trans (acts_carryOutAll _ h)
  unfold applyExclusion
  dsimp only
  split
  · exact hsent.trans (acts_enter _)
  · exact hsent

section Own

variable (own : ∀ o : Outgoing, o.Own → ok o)

include own

theorem acts_applyElection (s : Server) {step : Election × List Outgoing}
    (h : ∀ o ∈ step.2, o.Own) : Acts ok s (s.applyElection step) := by
  have hstart : Acts ok s { s with election := step.1 } := acts_same ⟨⟨rfl, rfl, rfl, rfl, rfl⟩, rfl⟩
  have hsent := hstart.trans (acts_carryOutAll _ fun o ho => own o (h o ho))
  unfold applyElection
  dsimp only
  split
  · exact hsent.trans (acts_applyExclusion _ fun o ho => own o (Exclusion.own_mint _ o ho))
  · exact hsent

theorem acts_startElection (s : Server) : Acts ok s s.startElection :=
  acts_applyElection own s (Election.own_start _ _)

theorem acts_requestSection (s : Server) : Acts ok s s.requestSection :=
  acts_applyExclusion s fun o ho => own o (Exclusion.own_request _ o ho)

theorem acts_leave (s : Server) (stay : Option Nat) : Acts ok s (s.leave stay) := by
  unfold leave
  split
  · have hstart : Acts ok s { s with exclusion := s.exclusion.release.1 } :=
      acts_same ⟨⟨rfl, rfl, rfl, rfl, rfl⟩, rfl⟩
    exact hstart.trans (acts_carryOutAll _ fun o ho => own o (Exclusion.own_release _ o ho))
  · exact .refl

theorem acts_announce (s : Server) : Acts ok s s.announce :=
  .send (o := .flood none MessageType.identity (.new s.identity .identity)) .refl
    (own _ ⟨rfl, ⟨rfl, nofun⟩, Action.registered_iff.2 rfl⟩)

/-- Every learned server is told of this one. -/
theorem acts_announceEach (s : Server) (learned : List Id) :
    Acts ok s (learned.foldl announceTo s) := by
  induction learned generalizing s with
  | nil => exact .refl
  | cons dest learned ih =>
    have first : Acts ok s (s.announceTo dest) := .send .refl (own _ ⟨rfl, ⟨rfl, nofun⟩, Action.registered_iff.2 rfl⟩)
    exact first.trans (ih (s.announceTo dest))

theorem acts_expire (s : Server) : Acts ok s s.expire := by
  have each : ∀ (due : List Timer) (s : Server), Acts ok s (due.foldl fire s) := by
    intro due
    induction due with
    | nil => exact fun s => .refl
    | cons timer due ih => exact fun s => (acts_leave own s _).trans (ih _)
  have hstart : Acts ok s { s with timers := (s.timers.partition (·.due ≤ s.clock)).2 } :=
    acts_same ⟨⟨rfl, rfl, rfl, rfl, rfl⟩, rfl⟩
  exact hstart.trans (each _ _)

theorem acts_advance (s : Server) (ms : Nat) : Acts ok s (s.advance ms) := by
  have hstart : Acts ok s { s with clock := s.clock + ms } := acts_same ⟨⟨rfl, rfl, rfl, rfl, rfl⟩, rfl⟩
  exact hstart.trans (acts_expire own _)

section Message

variable (pass : ∀ type recipient, MessageType.isForClients type = false →
  ok (.flood none type { msg with recipient }))

include pass

/-- Handling a message, whatever its kind: it may be passed on. -/
theorem acts_receive {kind : Kind} (h : s.receive kind msg = .ok s') : Acts ok s s' := by
  cases kind with
  | identity =>
    simp only [receive, receiveIdentity, Except.ok.injEq] at h
    rw [← h]
    exact .send (o := .flood none MessageType.identity _) .refl (pass _ none rfl)
  | electionToken =>
    simp only [receive, receiveElectionToken, mismatch] at h
    split at h
    · cases h
      exact acts_applyElection own s (Election.own_onToken _ _ _ _)
    · cases h
  | electionLeader =>
    simp only [receive, receiveElectionLeader, mismatch] at h
    split at h
    · cases h
      exact acts_applyElection own s (Election.own_onLeader _ _ _)
    · cases h
  | mutexRequest =>
    simp only [receive, receiveMutexRequest, mismatch] at h
    split at h
    · cases h
      have hstart : Acts ok s { s with exclusion := (s.exclusion.onRequest msg).1 } :=
        acts_same ⟨⟨rfl, rfl, rfl, rfl, rfl⟩, rfl⟩
      refine hstart.trans (acts_carryOutAll _ fun o ho => ?_)
      rcases Exclusion.own_onRequest s.exclusion msg o ho with rfl | hown
      · exact pass _ msg.recipient rfl
      · exact own o hown
    · cases h
  | mutexToken =>
    simp only [receive, receiveMutexToken, mismatch] at h
    split at h
    · cases h
      exact acts_applyExclusion s fun o ho => own o (Exclusion.own_onToken _ _ o ho)
    · cases h
  | chat => cases h

theorem acts_execute {type : MessageType} (h : s.execute type msg = .ok s') : Acts ok s s' := by
  unfold execute at h
  split at h
  · cases h
  · split at h
    · exact acts_receive own pass h
    · cases h

theorem acts_executeMessage (h : s.executeMessage msg = .ok s') : Acts ok s s' := by
  unfold executeMessage at h
  split at h
  · cases h
  · exact acts_execute own pass h

theorem acts_perform (s : Server) (type : MessageType) : Acts ok s (s.perform type msg) := by
  unfold perform
  split
  next s' h => exact acts_execute own pass h
  next => exact .refl

end Message

end Own

end Server

namespace Command

/-- A command that comes without a message and leaves the server up. -/
def isQuiet : Command → Bool
  | announce | elect | request | release | leave _ | query _ => true
  | console line => String.ofList (Text.trim line.toList) ≠ "quit"
  | _ => false

/-- The message that a command comes with. -/
def message? : Command → Option Message
  | .send _ _ msg => some msg
  | .flood _ _ msg => some msg
  | .floodClients _ _ msg => some msg
  | .execute _ msg => some msg
  | .executeMessage msg => some msg
  | .receive _ msg => some msg
  | _ => none

end Command

namespace Server

theorem acts_obey {ok : Outgoing → Prop} (own : ∀ o : Outgoing, o.Own → ok o) (s : Server)
    {c : Command} (hc : c.isQuiet = true) : Acts ok s (s.obey c).1 := by
  cases c with
  | announce => exact acts_announce own s
  | elect => exact acts_startElection own s
  | request => exact acts_requestSection own s
  | release => exact acts_leave own s none
  | leave stay => exact acts_leave own s _
  | query dest => exact .refl
  | console line =>
    have hquit : String.ofList (Text.trim line.toList) ≠ "quit" := by
      simpa [Command.isQuiet] using hc
    simp only [obey, console, if_neg hquit]
    split
    · exact acts_startElection own s
    · split
      · exact acts_requestSection own s
      · exact .refl
  | _ => cases hc

theorem acts_attempt {ok : Outgoing → Prop} {s : Server} {step : Except Fault Server}
    (h : ∀ s', step = .ok s' → Acts ok s s') : Acts ok s (s.attempt step).1 := by
  unfold attempt
  split
  next s' => exact h s' rfl
  next => exact .refl

theorem acts_sendTo {ok : Outgoing → Prop} {s s' : Server} {dest : Id} {type : MessageType}
    {msg : Message} (h : s.sendTo dest type msg = .ok s') (ho : ok (.toServer dest type msg)) :
    Acts ok s s' := by
  have hsent : s.carryOut (.toServer dest type msg) = s' := by rw [carryOut, h]
  exact hsent ▸ .send .refl ho

/-- A command ends the server, it goes to the clients only, or the server carries out sends: its own,
and of the message that the command comes with. -/
theorem obey_acts {ok : Outgoing → Prop} (own : ∀ o : Outgoing, o.Own → ok o) (s : Server)
    {c : Command} (pass : ∀ msg ∈ c.message?, ∀ o : Outgoing, o.message.path = msg.path →
      o.message.content = msg.content → ok o) :
    (s.obey c).1 = s.shutdown ∨ (∃ except type msg, c = .floodClients except type msg) ∨
      Acts ok s (s.obey c).1 := by
  by_cases hquiet : c.isQuiet = true
  · exact .inr (.inr (acts_obey own s hquiet))
  cases c with
  | shutdown => exact .inl rfl
  | console line =>
    have hquit : String.ofList (Text.trim line.toList) = "quit" := by
      simpa [Command.isQuiet] using hquiet
    exact .inl (by simp only [obey, console, if_pos hquit])
  | floodClients except type msg => exact .inr (.inl ⟨except, type, msg, rfl⟩)
  | send dest type msg =>
    exact .inr (.inr (acts_attempt fun s' h => acts_sendTo h (pass msg rfl _ rfl rfl)))
  | flood except type msg =>
    exact .inr (.inr (.send (o := .flood except type msg) .refl (pass msg rfl _ rfl rfl)))
  | execute type msg =>
    exact .inr (.inr (acts_attempt fun s' h =>
      acts_execute own (fun _ _ _ => pass msg rfl _ rfl rfl) h))
  | executeMessage msg =>
    exact .inr (.inr (acts_attempt fun s' h =>
      acts_executeMessage own (fun _ _ _ => pass msg rfl _ rfl rfl) h))
  | receive kind msg =>
    exact .inr (.inr (acts_attempt fun s' h =>
      acts_receive own (fun _ _ _ => pass msg rfl _ rfl rfl) h))
  | _ => exact absurd rfl hquiet

end Server

end RelayMesh
