import RelayMesh.Proofs.Server.Turns

namespace RelayMesh

/-- A wave or a request: who gets it may have to send something to its sender later. -/
def Message.IsCall (msg : Message) : Prop :=
  msg.content.kind = .electionToken ∨ msg.content.kind = .mutexRequest

instance : DecidablePred Message.IsCall := fun _ => inferInstanceAs (Decidable (_ ∨ _))

theorem Message.not_isCall_of_identity {msg : Message} (h : msg.content.kind = .identity) :
    ¬ msg.IsCall := by
  unfold IsCall
  rw [h]
  decide

namespace Outgoing

/-- The send starts at this server, and a wave is for everybody. -/
structure SaidBy (id : Id) (o : Outgoing) : Prop extends Own o where
  sender : o.message.sender = id
  everybody : o.message.content.kind = .electionToken → o.message.recipient = none

end Outgoing

namespace Election

open Outgoing (SaidBy)

/-- In this step the election comes to owe an echo to `caller` at most. It speaks for its own server,
and to one server only about an echo. -/
structure Owing (e : Election) (caller : Option Id) (step : Election × List Outgoing) : Prop where
  own : step.1.own = e.own
  parent : ∀ d, step.1.parent = some d → e.parent = some d ∨ caller = some d
  said : ∀ o ∈ step.2, o.SaidBy e.own
  echo : ∀ d type msg, .toServer d type msg ∈ step.2 → step.1.parent = some d

variable {e : Election} {x : Id} {n : Nat}

theorem saidBy_token (e : Election) (except : Option Id) (x : Id) :
    (Outgoing.flood except MessageType.electionToken (e.tokenMessage x)).SaidBy e.own :=
  ⟨⟨rfl, ⟨rfl, nofun⟩, Action.registered_iff.2 rfl⟩, rfl, fun _ => rfl⟩

theorem saidBy_leader (e : Election) (x : Id) :
    (Outgoing.flood none MessageType.electionLeader (e.leaderMessage x)).SaidBy e.own :=
  ⟨⟨rfl, ⟨rfl, nofun⟩, Action.registered_iff.2 rfl⟩, rfl, fun _ => rfl⟩

theorem owing_start (e : Election) (n : Nat) : e.Owing none (e.start n) := by
  unfold start
  split
  · exact ⟨rfl, fun _ h => .inl h, by simp, by simp⟩
  · dsimp only
    split
    · exact ⟨rfl, by simp, by simp, by simp⟩
    · refine ⟨rfl, by simp, fun o ho => ?_, by simp⟩
      rw [List.mem_singleton.1 ho]
      exact saidBy_token e none e.own

/-- An answer that is counted may complete the wave, whose echo goes to the parent. -/
theorem owing_countEcho (e : Election) (x : Id) (n : Nat) : e.Owing none (e.countEcho x n) := by
  have finish (e : Election) : (∀ o ∈ e.finishWave x, o.SaidBy e.own) ∧
      ∀ d type msg, Outgoing.toServer d type msg ∈ e.finishWave x → e.parent = some d := by
    unfold finishWave
    split
    · refine ⟨fun o ho => ?_, by simp⟩
      rw [List.mem_singleton.1 ho]
      exact saidBy_leader e e.own
    · split
      next d hparent =>
        refine ⟨fun o ho => ?_, fun d' type msg ho => ?_⟩
        · rw [List.mem_singleton.1 ho]
          exact ⟨⟨rfl, ⟨rfl, nofun⟩, Action.registered_iff.2 rfl⟩, rfl, fun _ => rfl⟩
        · cases List.mem_singleton.1 ho
          exact hparent
      next => simp
  unfold countEcho
  split
  · dsimp only
    split
    · obtain ⟨hsaid, hecho⟩ := finish { e with tokenEchoes := e.tokenEchoes + 1 }
      exact ⟨rfl, fun _ h => .inl h, hsaid, hecho⟩
    · exact ⟨rfl, fun _ h => .inl h, by simp, by simp⟩
  · exact ⟨rfl, fun _ h => .inl h, by simp, by simp⟩

theorem parent_countEcho (e : Election) (x : Id) (n : Nat) :
    (e.countEcho x n).1.parent = e.parent := by
  unfold countEcho
  split <;> rfl

/-- A server that joins a wave has its sender as the parent, and floods it on. -/
theorem owing_join (e : Election) (sender x : Id) : e.Owing (some sender) (e.join sender x) := by
  unfold join
  split
  · exact ⟨rfl, fun _ h => .inl h, by simp, by simp⟩
  · refine ⟨rfl, fun _ h => .inr h, fun o ho => ?_, by simp⟩
    rw [List.mem_singleton.1 ho]
    exact saidBy_token e (some sender) x

theorem owing_onToken (e : Election) (sender x : Id) (n : Nat) :
    e.Owing (some sender) (e.onToken sender x n) := by
  have hjoin := owing_join e sender x
  have hcount := owing_countEcho (e.join sender x).1 x n
  have hparent := parent_countEcho (e.join sender x).1 x n
  refine ⟨hcount.own.trans hjoin.own, fun d h => ?_, fun o ho => ?_, fun d type msg ho => ?_⟩
  · exact hjoin.parent d (hparent ▸ h)
  · exact (List.mem_append.1 ho).elim (hjoin.said o) fun h => hjoin.own ▸ hcount.said o h
  · refine (List.mem_append.1 ho).elim (fun h => ?_) (hcount.echo d type msg)
    exact hparent.trans (hjoin.echo d type msg h)

theorem owing_onLeader (e : Election) (x : Id) (n : Nat) : e.Owing none (e.onLeader x n) := by
  have hrelay : ∀ o ∈ (if e.leaderEchoes = 0 ∧ x ≠ e.own then
      [Outgoing.flood none MessageType.electionLeader (e.leaderMessage x)] else []),
      o = .flood none MessageType.electionLeader (e.leaderMessage x) := by
    intro o ho
    split at ho
    · exact List.mem_singleton.1 ho
    · cases ho
  have hsends : ∀ o ∈ (e.onLeader x n).2,
      o = .flood none MessageType.electionLeader (e.leaderMessage x) := by
    intro o ho
    unfold onLeader at ho
    dsimp only at ho
    split at ho <;> exact hrelay o ho
  refine ⟨?_, fun d h => .inl ?_, fun o ho => ?_, fun d type msg ho => ?_⟩
  · unfold onLeader
    dsimp only
    split <;> rfl
  · unfold onLeader at h
    dsimp only at h
    split at h <;> exact h
  · rw [hsends o ho]
    exact saidBy_leader e x
  · cases hsends _ ho

end Election

namespace Exclusion

open Outgoing (SaidBy)

/-- In this step mutual exclusion gets to know of no requests but the one that has come. It speaks for
its own server or passes that request on, and it gives the token to servers with requests only. -/
structure Owing (x : Exclusion) (came : Option Message) (step : Exclusion × List Outgoing) :
    Prop where
  own : step.1.own = x.own
  requests : ∀ d, (step.1.requests.get? d).isSome → (x.requests.get? d).isSome ∨
    ∃ msg ∈ came, msg.content.kind = .mutexRequest ∧ d = msg.sender ∧ d ≠ x.own
  said : ∀ o ∈ step.2, o.SaidBy x.own ∨
    ∃ msg ∈ came, msg.content.kind = .mutexRequest ∧ o = .flood none MessageType.mutexRequest msg
  token : ∀ d type msg, .toServer d type msg ∈ step.2 → (step.1.requests.get? d).isSome

variable {x x' : Exclusion} {came : Option Message} {step : Exclusion × List Outgoing} {d : Id}

/-- A step in which nothing is sent and nothing is noted. -/
theorem owing_of_eq (ho : x'.own = x.own) (hr : x'.requests = x.requests) :
    x.Owing came (x', []) :=
  ⟨ho, fun d h => .inl (by rwa [hr] at h), by simp, by simp⟩

/-- The change before a step has left identity and requests alone. -/
theorem Owing.of_eq (h : x'.Owing came step) (ho : x'.own = x.own) (hr : x'.requests = x.requests) :
    x.Owing came step where
  own := h.own.trans ho
  requests := by rw [← ho, ← hr]; exact h.requests
  said := by rw [← ho]; exact h.said
  token := h.token

theorem saidBy_requestMessage (x : Exclusion) : x.requestMessage.SaidBy x.own :=
  ⟨⟨rfl, ⟨rfl, nofun⟩, Action.registered_iff.2 rfl⟩, rfl, nofun⟩

theorem saidBy_handOver (x : Exclusion) (d : Id) (token : Token) :
    (x.handOver d token).SaidBy x.own :=
  ⟨⟨rfl, ⟨rfl, nofun⟩, Action.registered_iff.2 rfl⟩, rfl, nofun⟩

theorem isSome_of_lt_requestOf {n : Nat} (h : n < x.requestOf d) :
    (x.requests.get? d).isSome := by
  unfold requestOf at h
  cases hd : x.requests.get? d with
  | none => simp [hd] at h
  | some _ => rfl

theorem owing_handOff (came : Option Message) (h : (x.requests.get? d).isSome) :
    x.Owing came (x.handOff d) := by
  unfold handOff
  split
  · exact owing_of_eq rfl rfl
  next token _ =>
    refine ⟨rfl, fun _ h => .inl h, fun o ho => .inl ?_, fun d' type msg ho => ?_⟩
    · rw [List.mem_singleton.1 ho]
      exact saidBy_handOver x d token
    · cases List.mem_singleton.1 ho
      exact h

theorem owing_passOn (x : Exclusion) (came : Option Message) : x.Owing came x.passOn := by
  unfold passOn
  split
  · exact owing_of_eq rfl rfl
  next dest hdest =>
    obtain ⟨token, -, hfirst⟩ := Option.bind_eq_some_iff.1 hdest
    exact owing_handOff came (isSome_of_lt_requestOf (firstPending_eq_some hfirst))

theorem owing_release (x : Exclusion) (came : Option Message) : x.Owing came x.release := by
  unfold release
  split
  · exact (owing_passOn { x with phase := .outside } came).of_eq rfl rfl
  · exact owing_of_eq rfl rfl

theorem owing_onToken (x : Exclusion) (came : Option Message) (token : Token) :
    x.Owing came ((x.onToken token).1, (x.onToken token).2.sends) := by
  unfold onToken
  split
  · exact owing_of_eq rfl rfl
  · dsimp only
    split
    · exact owing_of_eq rfl rfl
    · exact (owing_passOn { x with token := some token } came).of_eq rfl rfl

theorem owing_mint (x : Exclusion) (came : Option Message) :
    x.Owing came (x.mint.1, x.mint.2.sends) := by
  unfold mint
  split
  · exact owing_of_eq rfl rfl
  · exact (owing_onToken { x with minted := true } came .fresh).of_eq rfl rfl

theorem owing_request (x : Exclusion) (came : Option Message) :
    x.Owing came (x.request.1, x.request.2.sends) := by
  unfold request
  split
  · exact owing_of_eq rfl rfl
  · split
    · exact owing_of_eq rfl rfl
    · refine ⟨rfl, fun _ h => .inl h, fun o ho => .inl ?_, by simp⟩
      rw [List.mem_singleton.1 ho]
      exact saidBy_requestMessage x.asked

theorem owing_obey (x : Exclusion) (came : Option Message) (what : Command) :
    x.Owing came (x.obey what) := by
  cases what with
  | request => exact owing_request x came
  | release => exact owing_release x came
  | mint => exact owing_mint x came

theorem owing_serve (x : Exclusion) (came : Option Message) (p : Id) :
    x.Owing came (x.serve p) := by
  unfold serve
  split
  · exact owing_of_eq rfl rfl
  · split
    next h => exact owing_handOff came (isSome_of_lt_requestOf h.2)
    · exact owing_of_eq rfl rfl

/-- A request of another server is noted if it is news, and only then passed on. -/
theorem owing_noteRequest {msg : Message} {n : Nat} (hc : msg.content = .mutexRequest n)
    (hs : msg.sender ≠ x.own) : x.Owing (some msg) (x.noteRequest n msg) := by
  have hkind : msg.content.kind = .mutexRequest := by rw [hc]; rfl
  unfold noteRequest
  split
  · refine ⟨rfl, fun d h => ?_, fun o ho => .inr ⟨msg, rfl, hkind, List.mem_singleton.1 ho⟩, by simp⟩
    dsimp only at h
    rw [SortedMap.get?_insert] at h
    split at h
    next he => exact .inr ⟨msg, rfl, hkind, he, he ▸ hs⟩
    next => exact .inl h
  · exact ⟨rfl, fun _ h => .inl h, by simp, by simp⟩

theorem owing_onRequest (x : Exclusion) (msg : Message) :
    x.Owing (some msg) (x.onRequest msg) := by
  unfold onRequest
  split
  next n hc =>
    split
    · exact owing_of_eq rfl rfl
    next hs =>
      have hnote := owing_noteRequest hc hs
      have hserve := owing_serve (x.noteRequest n msg).1 none msg.sender
      have hsame : ((x.noteRequest n msg).1.serve msg.sender).1.requests =
          (x.noteRequest n msg).1.requests := requests_serve _ _
      refine ⟨hserve.own.trans hnote.own, fun d h => hnote.requests d (hsame ▸ h), fun o ho => ?_,
        fun d type out ho => ?_⟩
      · rcases List.mem_append.1 ho with ho | ho
        · exact hnote.said o ho
        · rcases hserve.said o ho with hsaid | ⟨_, hnone, -⟩
          · exact .inl (hnote.own ▸ hsaid)
          · cases hnone
      · rcases List.mem_append.1 ho with ho | ho
        · exact hsame.symm ▸ hnote.token d type out ho
        · exact hserve.token d type out ho
  next => exact owing_of_eq rfl rfl

theorem owing_receive (x : Exclusion) (msg : Message) : x.Owing (some msg) (x.receive msg) := by
  unfold receive
  split
  · exact owing_onRequest x msg
  · exact owing_onToken x _ _
  · exact owing_of_eq rfl rfl

end Exclusion

namespace Server

/-- What the server may have to send to `d`. -/
inductive Owes (s : Server) (d : Id) : Prop
  | echo (h : s.election.parent = some d)
  | token (h : (s.exclusion.requests.get? d).isSome)

/-- The server comes to owe something to `d`, because `d` has sent `came`. -/
def Owed (s : Server) (came : Option Message) (d : Id) : Prop :=
  ∃ msg ∈ came, d = msg.sender ∧ (msg.content.kind = .electionToken ∨
    msg.content.kind = .mutexRequest ∧ d ≠ s.identity)

/-- The algorithms of the server know who it is. -/
structure Named (s : Server) : Prop where
  election : s.election.own = s.identity
  exclusion : s.exclusion.own = s.identity

variable {s s' : Server} {came : Option Message} {d : Id}

theorem Owes.of_eq (h : s'.Owes d) (he : s'.election = s.election)
    (hx : s'.exclusion = s.exclusion) : s.Owes d := by
  cases h with
  | echo h => exact .echo (he ▸ h)
  | token h => exact .token (hx ▸ h)

/-- The sends that the algorithms ask for, on the server's own account or about a message. -/
inductive Asks (s : Server) : Option Message → Outgoing → Prop
  | elect {o : Outgoing} (h : o ∈ (s.election.start s.neighbourCount).2) : Asks s none o
  | obey {o : Outgoing} (what : Exclusion.Command) (h : o ∈ (s.exclusion.obey what).2) :
      Asks s none o
  | election {o : Outgoing} {msg : Message} (h : o ∈ (s.electionStep msg).2) : Asks s (some msg) o
  | exclusion {o : Outgoing} {msg : Message} (h : o ∈ (s.exclusion.receive msg).2) :
      Asks s (some msg) o

/-- The algorithms send nothing to one server but what their server owes to it. -/
theorem Asks.owed (hn : s.Named) {dest : Id} {type : MessageType} {msg : Message}
    (h : s.Asks came (.toServer dest type msg)) : s.Owes dest ∨ s.Owed came dest := by
  have exclusion {step : Exclusion × List Outgoing} (hx : s.exclusion.Owing came step)
      (ho : .toServer dest type msg ∈ step.2) : s.Owes dest ∨ s.Owed came dest := by
    rcases hx.requests dest (hx.token dest type msg ho) with hold | ⟨old, hcame, hkind, hsender, hne⟩
    · exact .inl (.token hold)
    · exact .inr ⟨old, hcame, hsender, .inr ⟨hkind, hn.exclusion ▸ hne⟩⟩
  cases h with
  | elect ho =>
    have hx := Election.owing_start s.election s.neighbourCount
    exact .inl (.echo ((hx.parent dest (hx.echo dest type msg ho)).resolve_right (by simp)))
  | obey what ho => exact exclusion (Exclusion.owing_obey s.exclusion none what) ho
  | @election _ old ho =>
    unfold electionStep at ho
    split at ho
    next x hc =>
      have hx := Election.owing_onToken s.election old.sender x s.neighbourCount
      refine (hx.parent dest (hx.echo dest type msg ho)).imp .echo fun hsender => ?_
      exact ⟨old, rfl, (Option.some.inj hsender).symm, .inl (by rw [hc]; rfl)⟩
    next x hc =>
      have hx := Election.owing_onLeader s.election x s.neighbourCount
      exact .inl (.echo ((hx.parent dest (hx.echo dest type msg ho)).resolve_right (by simp)))
    · cases ho
  | @exclusion _ old ho => exact exclusion (Exclusion.owing_receive s.exclusion old) ho

/-- The server has a route to `dest`, which is another one. -/
structure Reaches (s : Server) (dest : Id) : Prop where
  other : dest ≠ s.identity
  route : (s.routes.get? dest).isSome

theorem fault_of_frame {type : MessageType} {msg : Message} {why : Fault}
    (h : s.frame type msg = .error why) : ∃ size, why = .messageTooLarge size :=
  ⟨_, (Frame.ofMessage_eq_error_iff.1 h).2⟩

theorem fault_of_push {outbox : Outbox} {link : LinkId} {f : Frame} {why : Fault}
    (h : outbox.push link f = .error why) :
    why = .connectionFailed .queueGone ∨ why = .sendQueueFull := by
  unfold Outbox.push at h
  split at h
  · exact .inl (Except.error.inj h).symm
  · split at h
    · cases h
    next hq => exact .inr ((Except.error.inj h).symm.trans (SendQueue.push_eq_error_iff.1 hq).2)

/-- Where there is a route, a send fails by the size of the message or by the queue only. -/
theorem Reaches.fault {dest : Id} (h : s.Reaches dest) {type : MessageType} {msg : Message}
    {why : Fault} (hf : s.sendTo dest type msg = .error why) :
    why ≠ .sendToSelf ∧ ∀ d, why ≠ .unknownDestination d := by
  obtain ⟨route, hroute⟩ := Option.isSome_iff_exists.1 h.route
  simp only [sendTo_of_route h.other hroute, Fault.bind_eq_error_iff] at hf
  rcases hf with hframe | ⟨f, -, hpush | ⟨outbox, -, ⟨⟩⟩⟩
  · obtain ⟨size, rfl⟩ := fault_of_frame hframe
    simp
  · rcases fault_of_push hpush with rfl | rfl <;> simp

/-- Whatever the server has sent before, the send does not fail for want of a route, nor because it
would go to the server itself. -/
def Finds (s : Server) (o : Outgoing) : Prop :=
  ∀ dest type msg, o = .toServer dest type msg → ∀ s' why, s.Kept s' →
    s'.sendTo dest type msg = .error why → why ≠ .sendToSelf ∧ ∀ d, why ≠ .unknownDestination d

/-- A server that can reach whomever it owes something carries out all that its algorithms ask for. -/
theorem finds_of_asks (hn : s.Named) (howes : ∀ d, s.Owes d → s.Reaches d)
    (howed : ∀ d, s.Owed came d → s.Reaches d) {o : Outgoing} (h : s.Asks came o) : s.Finds o := by
  rintro dest type msg rfl s' why hkept hf
  have hreaches : s.Reaches dest := (h.owed hn).elim (howes dest) (howed dest)
  have hreaches' : s'.Reaches dest :=
    ⟨hkept.identity ▸ hreaches.other, hkept.routes ▸ hreaches.route⟩
  exact hreaches'.fault hf

end Server

end RelayMesh
