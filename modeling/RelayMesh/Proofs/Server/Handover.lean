import RelayMesh.Proofs.Mesh.Space
import RelayMesh.Proofs.Server.Steps

namespace RelayMesh

namespace Exclusion

/-- The server keeps `token`, or gives it up for a server whose request it does not satisfy. The
hand-over comes after all other sends, which are about the message `came`. -/
inductive Parts (x : Exclusion) (token : Token) (came : Option Message) :
    Exclusion × List Outgoing → Prop
  | keep {x' : Exclusion} {sends : List Outgoing} (ht : x'.token = some token) :
      Parts x token came (x', sends)
  | give {x' : Exclusion} {sends : List Outgoing} {dest : Id} (ht : x'.token = none)
      (hd : token.entry dest < x'.requestOf dest) (hs : ∀ o ∈ sends, o.message.Stems came) :
      Parts x token came (x', sends ++ [x.handOver dest token])

variable {x x' : Exclusion} {token : Token}

/-- Only its identity and the number of its last request go with the token. -/
theorem Parts.of_eq {came : Option Message} {step : Exclusion × List Outgoing}
    (h : x'.Parts token came step) (ho : x'.own = x.own) (hn : x'.number = x.number) :
    x.Parts token came step := by
  have hsame : ∀ dest, x'.handOver dest token = x.handOver dest token := fun dest => by
    unfold handOver tokenMessage
    rw [ho, hn]
  cases h with
  | keep ht => exact .keep ht
  | give ht hd hs =>
    rw [hsame]
    exact .give ht hd hs

theorem parts_passOn (came : Option Message) (ht : x.token = some token) :
    x.Parts token came x.passOn := by
  simp only [passOn, ht, Option.bind_some]
  cases hf : firstPending x.requests token with
  | none => exact .keep ht
  | some dest =>
    simp only [handOff_of_token ht]
    have hgiven : x.Parts token came ({ x with token := none }, [] ++ [x.handOver dest token]) :=
      .give rfl (firstPending_eq_some hf) (by simp)
    exact hgiven

theorem parts_release (came : Option Message) (ht : x.token = some token) :
    x.Parts token came x.release := by
  unfold release
  split
  · have hout : ({ x with phase := .outside } : Exclusion).token = some token := ht
    exact (parts_passOn came hout).of_eq rfl rfl
  · exact .keep ht

theorem parts_serve (p : Id) (ht : x.token = some token) {relayed : List Outgoing}
    {came : Option Message} (hr : ∀ o ∈ relayed, o.message.Stems came) :
    x.Parts token came ((x.serve p).1, relayed ++ (x.serve p).2) := by
  simp only [serve, ht]
  split
  next hp =>
    rw [handOff_of_token ht]
    exact .give rfl hp.2 hr
  next => exact .keep ht

theorem parts_onRequest (msg : Message) (ht : x.token = some token) :
    x.Parts token (some msg) (x.onRequest msg) := by
  cases hc : msg.content with
  | mutexRequest n =>
    by_cases hs : msg.sender = x.own
    · simp only [onRequest, hc, hs, if_true]
      exact .keep ht
    · have hnoted := receive_request hc hs
      simp only [receive, hc] at hnoted
      rw [hnoted]
      have hrelayed : ∀ o ∈ (if x.requestOf msg.sender < n then
          [Outgoing.flood none MessageType.mutexRequest msg] else []),
          o.message.Stems (some msg) := by
        intro o ho
        split at ho
        · rw [List.mem_singleton.1 ho]
          exact msg.stems_self
        · simp at ho
      have hnotes : (x.noted msg.sender n).token = some token := by simpa using ht
      exact (parts_serve msg.sender hnotes hrelayed).of_eq (by simp) (by simp)
  | _ =>
    simp only [onRequest, hc]
    exact .keep ht

/-- A server that has the token drops another one. -/
theorem onToken_of_token (ht : x.token = some token) (other : Token) : x.onToken other = (x, {}) := by
  simp [onToken, ht]

theorem token_mint (ht : x.token = some token) : x.mint.1.token = some token := by
  unfold mint
  split
  · exact ht
  · have hmark : ({ x with minted := true } : Exclusion).token = some token := ht
    rw [onToken_of_token hmark]
    exact ht

/-- A server that has the token asks nobody for it. -/
theorem token_request (ht : x.token = some token) : x.request.1.token = some token := by
  unfold request
  split
  · exact ht
  · simp [ht]

end Exclusion

namespace Server

/-- What happens to a server. -/
inductive Event
  | arrive (hooks : Interception) (link : LinkId) (frame : Frame)
  | neighbour (id : Id) (link : LinkId)
  | client (id : Id) (link : LinkId)
  | close (link : LinkId)
  | advance (ms : Nat)
  | obey (command : Command)
  | release (withheld : Withheld)

def handle (s : Server) : Event → Server
  | .arrive hooks link frame => (s.arrive hooks link frame).1
  | .neighbour id link => s.addNeighbour id link
  | .client id link => s.addClient id link
  | .close link => s.closeLink link
  | .advance ms => s.advance ms
  | .obey command => (s.obey command).1
  | .release withheld => s.release withheld

/-- The message goes to `dest` in a frame that the queue of its route has taken, after all else. -/
def Queued (s s' : Server) (dest : Id) (type : MessageType) (msg : Message) : Prop :=
  ∃ route f frames, s'.routes.get? dest = some route ∧
    s'.frame type (msg.appendToPath s'.identity) = .ok f ∧
      s'.outbox.waiting route.link = s.outbox.waiting route.link ++ frames ++ [f]

/-- A message for `dest` is not sent: it would be for the server itself, no route is known, the
message is too long for a frame, or there is no queue on the route with space for the frame. -/
def Refuses (s : Server) (dest : Id) (type : MessageType) (msg : Message) : Prop :=
  dest = s.identity ∨ ∀ route, s.routes.get? dest = some route →
    (∀ f, s.frame type (msg.appendToPath s.identity) ≠ .ok f) ∨ ¬ s.outbox.HasSpace route.link

/-- The server holds `token`, or it has given it up for a server that waits for it, and its last send
takes the token there or fails. -/
def HeldOrSent (s : Server) (token : Token) (s' : Server) : Prop :=
  s'.exclusion.token = some token ∨
    s'.exclusion.token = none ∧ ∃ dest, token.entry dest < s'.exclusion.requestOf dest ∧
      (s.Queued s' dest MessageType.mutexToken (s.exclusion.tokenMessage dest token) ∨
        s'.Refuses dest MessageType.mutexToken (s.exclusion.tokenMessage dest token))

variable {s s' s'' : Server} {token : Token} {came : Option Message} {msg : Message} {dest : Id}
  {type : MessageType}

theorem not_refuses_of_isOk (h : (s.sendTo dest type msg).isOk = true) : ¬ s.Refuses dest type msg := by
  intro hrefuses
  cases hsend : s.sendTo dest type msg with
  | error why => rw [hsend] at h; cases h
  | ok s' =>
    obtain ⟨hne, route, f, outbox, hroute, hf, hpush, -⟩ := sendTo_eq_ok_iff.1 hsend
    rcases hrefuses.resolve_left hne route hroute with hlong | hfull
    · exact hlong f hf
    · obtain ⟨queue, hget, hspace, -⟩ := Outbox.push_eq_ok_iff.1 hpush
      exact hfull (Outbox.hasSpace_iff.2 ⟨queue, hget, hspace⟩)

/-- A send to one server is the last one in its queue, or it is refused. -/
theorem carryOut_toServer (s : Server) (dest : Id) (type : MessageType) (msg : Message) :
    s.Queued (s.carryOut (.toServer dest type msg)) dest type msg ∨
      (s.carryOut (.toServer dest type msg)).Refuses dest type msg := by
  rcases s.carryOut_cases dest type msg with
    ⟨route, f, outbox, hroute, hf, hpush, hsent⟩ | ⟨hsame, hwhy⟩
  · rw [hsent]
    refine .inl ⟨route, f, [], hroute, hf, ?_⟩
    rw [Outbox.waiting_of_push hpush, if_pos rfl, List.append_nil]
  · rw [hsame]
    refine .inr (hwhy.imp_right fun h route hget => (h route hget).imp_right ?_)
    rintro ⟨f, hno⟩ hspace
    obtain ⟨outbox, hok⟩ := Outbox.exists_push hspace f
    exact hno outbox hok

/-- What was queued earlier does not matter. -/
theorem Queued.after (h : s'.Queued s'' dest type msg)
    (hg : s.outbox.Grows (fun _ _ => True) s'.outbox) : s.Queued s'' dest type msg := by
  obtain ⟨route, f, frames, hget, hf, hw⟩ := h
  obtain ⟨first, hfirst, -⟩ := hg.queues route.link
  refine ⟨route, f, first ++ frames, hget, hf, ?_⟩
  rw [hw, hfirst, List.append_assoc (s.outbox.waiting route.link)]

theorem HeldOrSent.after (h : s'.HeldOrSent token s'') (hx : s'.exclusion = s.exclusion)
    (hg : s.outbox.Grows (fun _ _ => True) s'.outbox) : s.HeldOrSent token s'' := by
  unfold HeldOrSent at h
  rw [hx] at h
  exact h.imp_right fun ⟨hnone, dest, hd, hsent⟩ =>
    ⟨hnone, dest, hd, hsent.imp_left fun hq => hq.after hg⟩

theorem Sends.grows (h : Sends came s s') : s.outbox.Grows (fun _ _ => True) s'.outbox :=
  ⟨fun link => (h.outbox.queues link).imp fun _ hq => ⟨hq.1, fun _ _ => trivial⟩,
    h.outbox.capacities⟩

@[simp] theorem exclusion_flood (s : Server) (except : Option Id) (type : MessageType)
    (msg : Message) : (s.flood except type msg).1.exclusion = s.exclusion := by
  obtain ⟨_, h⟩ := s.exists_carryOut (.flood except type msg)
  rw [show (s.flood except type msg).1 = _ from h]

@[simp] theorem exclusion_floodClients (s : Server) (except : Option Id) (type : MessageType)
    (msg : Message) : (s.floodClients except type msg).1.exclusion = s.exclusion := by
  obtain ⟨_, _, h⟩ := s.exists_floodClients except type msg
  rw [h]

@[simp] theorem exclusion_relayChat (s : Server) (type : MessageType) (msg : Message) :
    (s.relayChat type msg).exclusion = s.exclusion := by
  simp [relayChat]

/-- A step that keeps the token, or parts with it, and the sends that it asks for. -/
theorem heldOrSent_of_parts {step : Exclusion × List Outgoing}
    (h : s.exclusion.Parts token came step) :
    s.HeldOrSent token ({ s with exclusion := step.1 }.carryOutAll step.2) := by
  cases h with
  | keep ht => exact .inl (by simpa using ht)
  | @give x' sends dest ht hd hs =>
    have hacts := acts_carryOutAll { s with exclusion := x' } hs
    have hgrows := hacts.sends.grows
    refine .inr ⟨by simpa using ht, dest, by simpa using hd, ?_⟩
    rw [carryOutAll, List.foldl_append]
    exact (carryOut_toServer _ dest _ _).imp_left fun hq => hq.after hgrows

variable (ht : s.exclusion.token = some token)

include ht

theorem heldOrSent_leave (stay : Option Nat) : s.HeldOrSent token (s.leave stay) := by
  unfold leave
  split
  · exact heldOrSent_of_parts (Exclusion.parts_release none ht)
  · exact .inl ht

omit ht in
/-- A server that is not in the critical section has nothing to leave. -/
theorem leave_of_phase (hp : s.exclusion.phase ≠ .inside) (stay : Option Nat) : s.leave stay = s := by
  unfold leave Exclusion.release
  rw [if_neg hp]
  split <;> rfl

omit ht in
theorem phase_leave (stay : Option Nat) :
    s.leave stay = s ∨ (s.leave stay).exclusion.phase ≠ .inside := by
  unfold leave
  split
  · by_cases hp : s.exclusion.phase = .inside
    · right
      simp only [exclusion_carryOutAll, Exclusion.release, hp, if_true, Exclusion.passOn]
      split
      · simp
      · unfold Exclusion.handOff
        split <;> simp
    · left
      simp only [Exclusion.release, if_neg hp]
      rfl
  · exact .inl rfl

omit ht in
theorem foldl_fire_of_phase (hp : s.exclusion.phase ≠ .inside) (due : List Timer) :
    due.foldl fire s = s := by
  induction due with
  | nil => rfl
  | cons timer due ih =>
    have hfire : s.fire timer = s := leave_of_phase hp (some timer.stay)
    rwa [List.foldl_cons, hfire]

omit ht in
/-- However many timers go off, the server leaves the critical section once at most. -/
theorem foldl_fire (due : List Timer) (s : Server) :
    due.foldl fire s = s ∨ ∃ stay, due.foldl fire s = s.leave stay := by
  induction due with
  | nil => exact .inl rfl
  | cons timer due ih =>
    have hfire : s.fire timer = s.leave (some timer.stay) := rfl
    rw [List.foldl_cons, hfire]
    rcases s.phase_leave (some timer.stay) with hsame | hout
    · rwa [hsame]
    · exact .inr ⟨some timer.stay, foldl_fire_of_phase hout due⟩

/-- That time passes does not matter. -/
theorem heldOrSent_advance (ms : Nat) : s.HeldOrSent token (s.advance ms) := by
  unfold advance expire
  generalize ({ s with clock := s.clock + ms } : Server).timers.partition _ = parted
  obtain ⟨due, timers⟩ := parted
  let wound : Server := { s with clock := s.clock + ms, timers }
  have hwound : wound.exclusion.token = some token := ht
  have hgrows : s.outbox.Grows (fun _ _ => True) wound.outbox := Outbox.grows_refl _ _
  show s.HeldOrSent token (due.foldl fire wound)
  rcases foldl_fire due wound with hsame | ⟨stay, hleft⟩
  · rw [hsame]
    exact .inl hwound
  · rw [hleft]
    exact (heldOrSent_leave hwound stay).after rfl hgrows

/-- The election makes no difference to a server that has the token already. -/
theorem heldOrSent_applyElection (step : Election × List Outgoing) :
    s.HeldOrSent token (s.applyElection step) := by
  left
  unfold applyElection
  dsimp only
  split
  · rw [exclusion_applyExclusion, exclusion_carryOutAll]
    exact Exclusion.token_mint ht
  · rw [exclusion_carryOutAll]
    exact ht

theorem heldOrSent_receive {kind : Kind} (h : s.receive kind msg = .ok s') :
    s.HeldOrSent token s' := by
  cases kind with
  | identity =>
    simp only [receive, receiveIdentity, Except.ok.injEq] at h
    obtain ⟨outbox, ho⟩ := s.exists_carryOut
      (.flood none MessageType.identity { msg with recipient := none })
    rw [← h, show (s.flood none MessageType.identity _).1 = _ from ho]
    exact .inl ht
  | electionToken =>
    simp only [receive, receiveElectionToken, mismatch] at h
    split at h <;> cases h
    exact heldOrSent_applyElection ht _
  | electionLeader =>
    simp only [receive, receiveElectionLeader, mismatch] at h
    split at h <;> cases h
    exact heldOrSent_applyElection ht _
  | mutexRequest =>
    simp only [receive, receiveMutexRequest, mismatch] at h
    split at h <;> cases h
    exact heldOrSent_of_parts (Exclusion.parts_onRequest msg ht)
  | mutexToken =>
    simp only [receive, receiveMutexToken, mismatch] at h
    split at h <;> cases h
    left
    rw [exclusion_applyExclusion, Exclusion.onToken_of_token ht]
    exact ht
  | chat => cases h

theorem heldOrSent_execute (h : s.execute type msg = .ok s') : s.HeldOrSent token s' := by
  unfold execute at h
  split at h
  · cases h
  · split at h
    · exact heldOrSent_receive ht h
    · cases h

theorem heldOrSent_executeMessage (h : s.executeMessage msg = .ok s') : s.HeldOrSent token s' := by
  unfold executeMessage at h
  split at h
  · cases h
  · exact heldOrSent_execute ht h

theorem heldOrSent_perform (type : MessageType) (msg : Message) :
    s.HeldOrSent token (s.perform type msg) := by
  unfold perform
  split
  next s' h => exact heldOrSent_execute ht h
  next => exact .inl ht

theorem heldOrSent_dispatch (hooks : Interception) (type : MessageType) (msg : Message) :
    s.HeldOrSent token (s.dispatch hooks type msg).1 := by
  unfold dispatch
  split
  · exact .inl (by simpa using ht)
  · split
    next dest _ =>
      obtain ⟨outbox, ho⟩ := s.exists_carryOut (.toServer dest type msg)
      exact .inl (by rw [forward, ho]; exact ht)
    · split
      · exact .inl ht
      · exact heldOrSent_perform ht type msg

theorem heldOrSent_arrive (hooks : Interception) (link : LinkId) (f : Frame) :
    s.HeldOrSent token (s.arrive hooks link f).1 := by
  unfold arrive
  split
  · exact .inl ht
  · unfold handleFrame
    split
    next id route msg _ _ =>
      split
      · split
        · exact .inl (by simpa using ht)
        · exact .inl ht
      · obtain ⟨outbox, hlearned⟩ := s.exists_learnRoutes msg route.link
        have hsame : (s.learnRoutes msg route.link).exclusion = s.exclusion := by rw [hlearned]
        have hsends : Sends none { s with routes := (s.routes.learn msg.path route.link).1 }
            (s.learnRoutes msg route.link) := s.sends_learnRoutes msg route.link
        exact (heldOrSent_dispatch (hsame ▸ ht) hooks f.type msg).after hsame hsends.grows
    next => exact .inl ht

theorem heldOrSent_release (w : Withheld) : s.HeldOrSent token (s.release w) := by
  unfold release
  split
  next s' h => exact heldOrSent_executeMessage ht h
  next => exact .inl ht

theorem heldOrSent_request : s.HeldOrSent token s.requestSection :=
  .inl (by rw [requestSection, exclusion_applyExclusion]; exact Exclusion.token_request ht)

theorem heldOrSent_attempt {step : Except Fault Server}
    (h : ∀ s', step = .ok s' → s.HeldOrSent token s') : s.HeldOrSent token (s.attempt step).1 := by
  unfold attempt
  split
  next s' => exact h s' rfl
  next => exact .inl ht

theorem heldOrSent_obey (c : Command) : s.HeldOrSent token (s.obey c).1 := by
  cases c with
  | announce => exact .inl (by simpa [obey, announce] using ht)
  | elect => exact heldOrSent_applyElection ht _
  | request => exact heldOrSent_request ht
  | release => exact heldOrSent_leave ht none
  | shutdown => exact .inl ht
  | leave stay => exact heldOrSent_leave ht (some stay)
  | console line =>
    simp only [obey, console]
    split
    · exact .inl ht
    · split
      · exact heldOrSent_applyElection ht _
      · split
        · exact heldOrSent_request ht
        · exact .inl ht
  | send dest type msg =>
    refine heldOrSent_attempt ht fun s' h => ?_
    obtain ⟨-, route, f, outbox, -, -, -, rfl⟩ := sendTo_eq_ok_iff.1 h
    exact .inl ht
  | flood except type msg => exact .inl (by simpa [obey] using ht)
  | floodClients except type msg => exact .inl (by simpa [obey] using ht)
  | execute type msg => exact heldOrSent_attempt ht fun s' h => heldOrSent_execute ht h
  | executeMessage msg => exact heldOrSent_attempt ht fun s' h => heldOrSent_executeMessage ht h
  | receive kind msg => exact heldOrSent_attempt ht fun s' h => heldOrSent_receive ht h
  | query dest => exact .inl ht

/-- Whatever happens to a server that holds the token: it holds the token afterwards, or it has given
it up for a server that waits for it. Then the token is on the route to that server, as the last
frame of the queue, or this last send has been refused. -/
theorem token_held_or_sent (e : Event) : s.HeldOrSent token (s.handle e) := by
  cases e with
  | arrive hooks link f => exact heldOrSent_arrive ht hooks link f
  | neighbour id link => exact .inl ht
  | client id link => exact .inl ht
  | close link =>
    left
    simp only [handle, closeLink]
    split
    · exact ht
    · exact ht
  | advance ms => exact heldOrSent_advance ht ms
  | obey c => exact heldOrSent_obey ht c
  | release w => exact heldOrSent_release ht w

omit ht

/-- Server 1 is in the critical section when server 2 asks for the token. -/
def farewell : List Mesh.Move :=
  [.step (.at 1 (.command .elect)), .join 1 2, .step (.at 1 (.command .request)),
    .step (.at 2 (.command .request)), .deliver 0]

theorem token_held_or_sent_farewell :
    let m := (Mesh.new [1, 2] {} [] false).play farewell
    ∃ s, m.server? 1 = some s ∧ s.exclusion.token = some .fresh ∧
      (s.handle (.obey .release)).exclusion.token = none ∧
      s.Queued (s.handle (.obey .release)) 2 MessageType.mutexToken
        (s.exclusion.tokenMessage 2 .fresh) := by
  intro m
  have hgiven : (m.server? 1).map (fun s =>
      let s' := s.handle (.obey .release)
      (s.exclusion.token, s'.exclusion.token, s'.exclusion.requests.toList,
        (s'.sendTo 2 MessageType.mutexToken (s.exclusion.tokenMessage 2 .fresh)).isOk)) =
      some (some .fresh, none, [(2, 1)], true) := by decide +kernel
  obtain ⟨s, hs, heq⟩ := Option.map_eq_some_iff.1 hgiven
  simp only [Prod.mk.injEq] at heq
  obtain ⟨ht, hgone, hrequests, hsends⟩ := heq
  refine ⟨s, hs, ht, hgone, ?_⟩
  have hwhere : s.HeldOrSent .fresh (s.handle (.obey .release)) :=
    token_held_or_sent ht (.obey .release)
  rcases hwhere with hkept | ⟨-, dest, hwaits, hsent⟩
  · rw [hgone] at hkept
    cases hkept
  obtain rfl : dest = 2 := by
    cases hn : (s.handle (.obey .release)).exclusion.requests.get? dest with
    | none => simp [Exclusion.requestOf, hn] at hwaits
    | some n =>
      have hmem := (SortedMap.mem_toList_iff _).2 hn
      rw [hrequests] at hmem
      exact (Prod.mk.inj (List.mem_singleton.1 hmem)).1
  exact hsent.resolve_right (not_refuses_of_isOk hsends)

/-- If the connection ends before server 1 leaves the critical section, nothing is sent and nobody has
the token any more. -/
theorem token_lost :
    let m := (Mesh.new [1, 2] {} [] false).play (farewell ++ [.step (.cut 1 2)])
    ∃ s, m.server? 1 = some s ∧ s.exclusion.token.isSome ∧
      (s.handle (.obey .release)).exclusion.token = none ∧
      (s.handle (.obey .release)).outbox = s.outbox := by
  intro m
  have hlost : (m.server? 1).map (fun s => (s.exclusion.token.isSome,
      (s.handle (.obey .release)).exclusion.token,
      decide ((s.handle (.obey .release)).outbox = s.outbox))) = some (true, none, true) := by
    decide +kernel
  obtain ⟨s, hs, heq⟩ := Option.map_eq_some_iff.1 hlost
  simp only [Prod.mk.injEq, decide_eq_true_eq] at heq
  exact ⟨s, hs, heq⟩

end Server

end RelayMesh
