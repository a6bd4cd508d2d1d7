import RelayMesh.Proofs.Server.Handover

namespace RelayMesh

namespace Exclusion

variable {x : Exclusion}

/-- A step says that the server has entered exactly if it has. -/
def Reports (x : Exclusion) (step : Exclusion × Outcome) : Prop :=
  step.2.entered = true ↔ x.phase ≠ .inside ∧ step.1.phase = .inside

@[simp] theorem phase_handOff (x : Exclusion) (dest : Id) : (x.handOff dest).1.phase = x.phase := by
  unfold handOff
  split <;> rfl

@[simp] theorem phase_passOn (x : Exclusion) : x.passOn.1.phase = x.phase := by
  unfold passOn
  split
  · rfl
  · simp

theorem phase_onRequest (x : Exclusion) (msg : Message) : (x.onRequest msg).1.phase = x.phase := by
  have hserve (x : Exclusion) : (x.serve msg.sender).1.phase = x.phase := by
    unfold serve
    split
    · rfl
    · split <;> simp
  have hnote (number : Nat) : (x.noteRequest number msg).1.phase = x.phase := by
    unfold noteRequest
    split <;> rfl
  unfold onRequest
  split
  next number _ =>
    split
    · rfl
    · exact (hserve _).trans (hnote number)
  next => rfl

theorem phase_release_ne (x : Exclusion) : x.release.1.phase ≠ .inside := by
  unfold release
  split
  · simp
  next hp => exact hp

theorem reports_request (x : Exclusion) : x.Reports x.request := by
  unfold Reports request
  split
  · simp
  next hp =>
    rw [not_not] at hp
    split <;> simp [hp]

theorem reports_onToken (x : Exclusion) (token : Token) : x.Reports (x.onToken token) := by
  unfold Reports onToken
  split
  · simp
  · dsimp only
    split
    next hp => simp [hp]
    · simp

theorem reports_mint (x : Exclusion) : x.Reports x.mint := by
  unfold mint
  split
  · simp [Reports]
  · exact reports_onToken { x with minted := true } .fresh

end Exclusion

namespace Server

/-- What happens to a server from one moment to the next: an event, one of its timers goes off, at
whatever time, its queues change in any other way, or a client gets an identity. -/
inductive Moment
  | event (e : Event)
  | timer (index : Nat)
  | queues (outbox : Outbox)
  | identity

def pass (s : Server) : Moment → Server
  | .event e => s.handle e
  | .timer index =>
    match s.timers[index]? with
    | none => s
    | some timer => { s with timers := s.timers.eraseIdx index }.fire timer
  | .queues outbox => { s with outbox }
  | .identity => s.mintClientId.1

def live (s : Server) (moments : List Moment) : Server := moments.foldl pass s

def Inside (s : Server) : Prop := s.exclusion.phase = .inside

instance (s : Server) : Decidable s.Inside := inferInstanceAs (Decidable (_ = _))

/-- How often a server comes into the critical section. -/
def entries (s : Server) : List Moment → Nat
  | [] => 0
  | moment :: moments =>
    (if ¬ s.Inside ∧ (s.pass moment).Inside then 1 else 0) + (s.pass moment).entries moments

/-- What one moment does to the stays of a server. It enters none and loses timers, but not the one of
a stay that goes on; or it enters one and sets the timer for it. -/
inductive Goes (s s' : Server) : Prop
  | on (config : s'.config = s.config) (stays : s'.stays = s.stays)
      (timers : s'.timers.Sublist s.timers) (down : s.down = true → s'.down = true)
      (inside : s'.Inside → s.Inside)
      (armed : s'.Inside → s'.down = false → ∀ timer ∈ s.timers, timer.stay = s.stays →
        timer ∈ s'.timers)
  | enters (config : s'.config = s.config) (stays : s'.stays = s.stays + 1) (down : s'.down = s.down)
      (outside : ¬ s.Inside) (inside : s'.Inside)
      (timers : ∃ due, s'.timers = if s.config.criticalSection = 0 ∨ s.down then s.timers
        else s.timers ++ [⟨s.stays + 1, due⟩])

/-- Nothing has changed that matters for stays. -/
structure SameStay (s s' : Server) : Prop where
  config : s'.config = s.config
  down : s'.down = s.down
  stays : s'.stays = s.stays
  timers : s'.timers = s.timers
  phase : s'.exclusion.phase = s.exclusion.phase

variable {s s' s'' : Server} {type : MessageType} {msg : Message} {kind : Kind}

theorem SameStay.inside (h : s.SameStay s') : s'.Inside ↔ s.Inside := by
  rw [Inside, Inside, h.phase]

theorem SameStay.goes (h : s.SameStay s') : s.Goes s' :=
  .on h.config h.stays (h.timers ▸ List.Sublist.refl _) (fun hd => h.down.trans hd) h.inside.1
    fun _ _ _ ht _ => h.timers ▸ ht

theorem goes_refl (s : Server) : s.Goes s := SameStay.goes ⟨rfl, rfl, rfl, rfl, rfl⟩

theorem Goes.after (hg : s'.Goes s'') (h : s.SameStay s') : s.Goes s'' := by
  cases hg with
  | on config stays timers down inside armed =>
    rw [h.config] at config
    rw [h.stays] at stays armed
    rw [h.timers] at timers armed
    rw [h.down] at down
    exact .on config stays timers down (fun hin => h.inside.1 (inside hin)) armed
  | enters config stays down outside inside timers =>
    rw [h.config] at config timers
    rw [h.stays] at stays timers
    rw [h.timers, h.down] at timers
    rw [h.down] at down
    rw [h.inside] at outside
    exact .enters config stays down outside inside timers

theorem sameStay_carryOut (s : Server) (o : Outgoing) : s.SameStay (s.carryOut o) := by
  obtain ⟨outbox, h⟩ := s.exists_carryOut o
  rw [h]
  exact ⟨rfl, rfl, rfl, rfl, rfl⟩

theorem sameStay_relayChat (s : Server) (type : MessageType) (msg : Message) :
    s.SameStay (s.relayChat type msg) := by
  obtain ⟨queues, hflood⟩ := s.exists_carryOut (.flood (some msg.sender) type msg)
  obtain ⟨lastChat, outbox, hclients⟩ :=
    (s.carryOut (.flood (some msg.sender) type msg)).exists_floodClients (some msg.sender) type msg
  rw [relayChat, show (s.flood (some msg.sender) type msg).1 = _ from rfl, ← carryOut, hclients,
    hflood]
  exact ⟨rfl, rfl, rfl, rfl, rfl⟩

theorem goes_applyExclusion {step : Exclusion × Exclusion.Outcome} (h : s.exclusion.Reports step) :
    s.Goes (s.applyExclusion step) := by
  obtain ⟨outbox, hsent⟩ := { s with exclusion := step.1 }.exists_carryOutAll step.2.sends
  unfold applyExclusion
  rw [hsent]
  dsimp only
  split
  next hentered =>
    obtain ⟨hout, hin⟩ := h.1 hentered
    unfold enter armTimer
    split
    next hnone => exact .enters rfl rfl rfl hout hin ⟨0, (if_pos hnone).symm⟩
    next hset => exact .enters rfl rfl rfl hout hin ⟨_, (if_neg hset).symm⟩
  next hnot =>
    have hinside (hin : step.1.phase = .inside) : s.Inside := by
      by_contra hout
      exact hnot (h.2 ⟨hout, hin⟩)
    exact .on rfl rfl (.refl _) id hinside fun _ _ t ht _ => ht

theorem goes_applyElection (s : Server) (step : Election × List Outgoing) :
    s.Goes (s.applyElection step) := by
  obtain ⟨outbox, hsent⟩ := { s with election := step.1 }.exists_carryOutAll step.2
  unfold applyElection
  rw [hsent]
  dsimp only
  split
  · exact (goes_applyExclusion (Exclusion.reports_mint _)).after ⟨rfl, rfl, rfl, rfl, rfl⟩
  · exact SameStay.goes ⟨rfl, rfl, rfl, rfl, rfl⟩

theorem goes_requestSection (s : Server) : s.Goes s.requestSection :=
  goes_applyExclusion (Exclusion.reports_request _)

theorem not_inside_leave {stay : Option Nat} (h : stay.all (· = s.stays) = true) :
    ¬ (s.leave stay).Inside := by
  rw [leave, if_pos h, Inside, exclusion_carryOutAll]
  exact s.exclusion.phase_release_ne

theorem leave_of_ne {stay : Nat} (h : stay ≠ s.stays) : s.leave (some stay) = s := by
  rw [leave, if_neg (by simpa using h)]

theorem leave_of_inside {stay : Option Nat} (h : (s.leave stay).Inside) : s.leave stay = s :=
  (s.phase_leave stay).resolve_right (not_not.2 h)

theorem goes_leave (s : Server) (stay : Option Nat) : s.Goes (s.leave stay) := by
  obtain ⟨exclusion, outbox, hleft⟩ := s.exists_leave stay
  have hinside (h : (s.leave stay).Inside) : s.Inside := leave_of_inside h ▸ h
  rw [hleft] at hinside ⊢
  exact .on rfl rfl (.refl _) id hinside fun _ _ t ht _ => ht

/-- A server that is still inside has had no timer of its present stay go off. -/
theorem foldl_fire_of_inside {due : List Timer} (h : (due.foldl fire s).Inside) :
    due.foldl fire s = s ∧ ∀ t ∈ due, t.stay ≠ s.stays := by
  induction due with
  | nil => exact ⟨rfl, fun _ ht => absurd ht List.not_mem_nil⟩
  | cons t due ih =>
    have hne : t.stay ≠ s.stays := fun he => by
      have hout : ¬ (s.fire t).Inside := not_inside_leave (by simp [he])
      rw [List.foldl_cons, foldl_fire_of_phase hout] at h
      exact hout h
    have hfire : s.fire t = s := leave_of_ne hne
    rw [List.foldl_cons, hfire] at h ⊢
    obtain ⟨hsame, hrest⟩ := ih h
    exact ⟨hsame, List.forall_mem_cons.2 ⟨hne, hrest⟩⟩

theorem expire_eq (s : Server) : s.expire =
    (s.timers.filter (·.due ≤ s.clock)).foldl fire
      { s with timers := s.timers.filter fun t => !decide (t.due ≤ s.clock) } := by
  rw [expire, List.partition_eq_filter_filter]
  rfl

theorem goes_expire (s : Server) : s.Goes s.expire := by
  obtain ⟨exclusion, outbox, hexpire⟩ := s.exists_expire
  rw [List.partition_eq_filter_filter] at hexpire
  have hinside (h : s.expire.Inside) :
      s.Inside ∧ ∀ t ∈ s.timers.filter (·.due ≤ s.clock), t.stay ≠ s.stays := by
    rw [expire_eq] at h
    obtain ⟨hsame, hnone⟩ := foldl_fire_of_inside h
    rw [hsame] at h
    exact ⟨h, hnone⟩
  rw [hexpire] at hinside ⊢
  refine .on rfl rfl List.filter_sublist id (fun h => (hinside h).1) fun h _ t ht hstay => ?_
  have hlater : ¬ t.due ≤ s.clock := fun hdue =>
    (hinside h).2 t (List.mem_filter.2 ⟨ht, decide_eq_true hdue⟩) hstay
  exact List.mem_filter.2 ⟨ht, by simpa using hlater⟩

theorem goes_timer (s : Server) (index : Nat) : s.Goes (s.pass (.timer index)) := by
  rw [pass]
  split
  · exact s.goes_refl
  next timer hget =>
    obtain ⟨exclusion, outbox, hleft⟩ :=
      exists_leave { s with timers := s.timers.eraseIdx index } (some timer.stay)
    have hinside (h : ({ s with timers := s.timers.eraseIdx index }.fire timer).Inside) :
        s.Inside ∧ timer.stay ≠ s.stays := by
      have hsame := leave_of_inside h
      refine ⟨?_, fun he => not_inside_leave (by simp [he]) h⟩
      rw [fire, hsame] at h
      exact h
    rw [fire, hleft] at hinside ⊢
    refine .on rfl rfl (List.eraseIdx_sublist ..) id (fun h => (hinside h).1) ?_
    intro h _ t ht hstay
    obtain ⟨i, hi⟩ := List.mem_iff_getElem?.1 ht
    refine List.mem_eraseIdx_iff_getElem?.2 ⟨i, fun he => ?_, hi⟩
    rw [he, hget] at hi
    exact (hinside h).2 (Option.some.inj hi ▸ hstay)

theorem goes_receive (h : s.receive kind msg = .ok s') : s.Goes s' := by
  cases kind with
  | identity =>
    simp only [receive, receiveIdentity, Except.ok.injEq] at h
    exact h ▸ (s.sameStay_carryOut (.flood none MessageType.identity _)).goes
  | electionToken =>
    simp only [receive, receiveElectionToken, mismatch] at h
    split at h <;> cases h
    exact s.goes_applyElection _
  | electionLeader =>
    simp only [receive, receiveElectionLeader, mismatch] at h
    split at h <;> cases h
    exact s.goes_applyElection _
  | mutexRequest =>
    simp only [receive, receiveMutexRequest, mismatch] at h
    split at h <;> cases h
    obtain ⟨outbox, hsent⟩ := { s with exclusion := (s.exclusion.onRequest msg).1 }.exists_carryOutAll
      (s.exclusion.onRequest msg).2
    rw [hsent]
    exact SameStay.goes ⟨rfl, rfl, rfl, rfl, s.exclusion.phase_onRequest msg⟩
  | mutexToken =>
    simp only [receive, receiveMutexToken, mismatch] at h
    split at h <;> cases h
    exact goes_applyExclusion (s.exclusion.reports_onToken _)
  | chat => cases h

theorem goes_execute (h : s.execute type msg = .ok s') : s.Goes s' := by
  unfold execute at h
  split at h
  · cases h
  · split at h
    · exact goes_receive h
    · cases h

theorem goes_executeMessage (h : s.executeMessage msg = .ok s') : s.Goes s' := by
  unfold executeMessage at h
  split at h
  · cases h
  · exact goes_execute h

theorem goes_dispatch (hooks : Interception) (s : Server) (type : MessageType) (msg : Message) :
    s.Goes (s.dispatch hooks type msg).1 := by
  unfold dispatch
  split
  · exact (s.sameStay_relayChat type msg).goes
  · split
    · exact (s.sameStay_carryOut (.toServer _ type msg)).goes
    · split
      · exact s.goes_refl
      · unfold perform
        split
        next s' h => exact goes_execute h
        next => exact s.goes_refl

theorem goes_arrive (hooks : Interception) (s : Server) (link : LinkId) (f : Frame) :
    s.Goes (s.arrive hooks link f).1 := by
  unfold arrive
  split
  · exact s.goes_refl
  · unfold handleFrame
    split
    next id route msg _ _ =>
      split
      · split
        · exact (s.sameStay_relayChat f.type msg).goes
        · exact s.goes_refl
      · obtain ⟨outbox, hlearned⟩ := s.exists_learnRoutes msg route.link
        refine (goes_dispatch hooks _ f.type msg).after ?_
        rw [hlearned]
        exact ⟨rfl, rfl, rfl, rfl, rfl⟩
    next => exact s.goes_refl

theorem goes_attempt {step : Except Fault Server} (h : ∀ s', step = .ok s' → s.Goes s') :
    s.Goes (s.attempt step).1 := by
  unfold attempt
  split
  next s' => exact h s' rfl
  next => exact s.goes_refl

theorem goes_shutdown (s : Server) : s.Goes s.shutdown :=
  .on rfl rfl (List.nil_sublist _) (fun _ => rfl) id fun _ hup => Bool.noConfusion hup

theorem goes_obey (s : Server) (c : Command) : s.Goes (s.obey c).1 := by
  cases c with
  | announce => exact (s.sameStay_carryOut (.flood none MessageType.identity _)).goes
  | elect => exact s.goes_applyElection _
  | request => exact s.goes_requestSection
  | release => exact s.goes_leave none
  | shutdown => exact s.goes_shutdown
  | leave stay => exact s.goes_leave (some stay)
  | console line =>
    simp only [obey, console]
    split
    · exact s.goes_shutdown
    · split
      · exact s.goes_applyElection _
      · split
        · exact s.goes_requestSection
        · exact s.goes_refl
  | send dest type msg =>
    refine goes_attempt fun s' h => ?_
    obtain ⟨-, route, f, outbox, -, -, -, rfl⟩ := sendTo_eq_ok_iff.1 h
    exact SameStay.goes ⟨rfl, rfl, rfl, rfl, rfl⟩
  | flood except type msg => exact (s.sameStay_carryOut (.flood except type msg)).goes
  | floodClients except type msg =>
    obtain ⟨lastChat, outbox, h⟩ := s.exists_floodClients except type msg
    refine SameStay.goes ?_
    simp only [obey, h]
    exact ⟨rfl, rfl, rfl, rfl, rfl⟩
  | execute type msg => exact goes_attempt fun s' h => goes_execute h
  | executeMessage msg => exact goes_attempt fun s' h => goes_executeMessage h
  | receive kind msg => exact goes_attempt fun s' h => goes_receive h
  | query dest => exact s.goes_refl

theorem goes_pass (s : Server) (moment : Moment) : s.Goes (s.pass moment) := by
  cases moment with
  | event e =>
    cases e with
    | arrive hooks link f => exact goes_arrive hooks s link f
    | neighbour id link => exact SameStay.goes ⟨rfl, rfl, rfl, rfl, rfl⟩
    | client id link => exact SameStay.goes ⟨rfl, rfl, rfl, rfl, rfl⟩
    | close link =>
      simp only [pass, handle, closeLink]
      split <;> exact SameStay.goes ⟨rfl, rfl, rfl, rfl, rfl⟩
    | advance ms => exact (goes_expire _).after ⟨rfl, rfl, rfl, rfl, rfl⟩
    | obey c => exact s.goes_obey c
    | release w =>
      simp only [pass, handle, release]
      split
      next s' h => exact goes_executeMessage h
      next => exact s.goes_refl
  | timer index => exact s.goes_timer index
  | queues outbox => exact SameStay.goes ⟨rfl, rfl, rfl, rfl, rfl⟩
  | identity => exact SameStay.goes ⟨rfl, rfl, rfl, rfl, rfl⟩

/-- Every timer was set for one of the stays so far, no two for the same one, and a stay that lasts
has its timer. -/
structure Timed (s : Server) : Prop where
  past : ∀ timer ∈ s.timers, timer.stay ≤ s.stays
  apart : (s.timers.map (·.stay)).Nodup
  armed : 0 < s.config.criticalSection → s.down = false → s.Inside →
    ∃ timer ∈ s.timers, timer.stay = s.stays

theorem timed_new (identity : Id) (config : Config) : (Server.new identity config).Timed where
  past := fun _ h => absurd h List.not_mem_nil
  apart := List.nodup_nil
  armed := fun _ _ h => by cases h

theorem Goes.timed (hg : s.Goes s') (h : s.Timed) : s'.Timed := by
  cases hg with
  | on config stays timers down inside armed =>
    refine ⟨fun t ht => stays ▸ h.past t (timers.subset ht), h.apart.sublist (timers.map _), ?_⟩
    rw [config, stays]
    intro hpos hup hin
    have hwas : s.down = false := Bool.eq_false_iff.2 fun hd => by simp [down hd] at hup
    obtain ⟨t, ht, hstay⟩ := h.armed hpos hwas (inside hin)
    exact ⟨t, armed hin hup t ht hstay, hstay⟩
  | enters config stays down outside inside timers =>
    obtain ⟨due, htimers⟩ := timers
    split at htimers
    next hnone =>
      refine ⟨fun t ht => ?_, htimers ▸ h.apart, fun hpos hup => ?_⟩
      · rw [htimers] at ht
        exact stays ▸ (h.past t ht).trans (Nat.le_succ _)
      · rw [config] at hpos
        rw [down] at hup
        simp [hup, Nat.ne_of_gt hpos] at hnone
    next hset =>
      refine ⟨fun t ht => ?_, ?_, fun _ _ _ => ⟨_, htimers ▸ List.mem_append_right _
        List.mem_cons_self, stays.symm⟩⟩
      · rw [htimers, List.mem_append, List.mem_singleton] at ht
        rcases ht with ht | rfl
        · exact stays ▸ (h.past t ht).trans (Nat.le_succ _)
        · exact Nat.le_of_eq stays.symm
      · have hnew : s.stays + 1 ∉ s.timers.map (·.stay) := fun hmem => by
          obtain ⟨t, ht, hstay⟩ := List.mem_map.1 hmem
          exact Nat.not_succ_le_self _ (hstay ▸ h.past t ht)
        rw [htimers, List.map_append, List.map_singleton, ← List.concat_eq_append]
        exact h.apart.concat hnew

theorem Goes.stays_eq (hg : s.Goes s') :
    s'.stays = s.stays + if ¬ s.Inside ∧ s'.Inside then 1 else 0 := by
  cases hg with
  | on config stays timers down inside armed =>
    rw [if_neg fun h => h.1 (inside h.2), stays, Nat.add_zero]
  | enters config stays down outside inside timers => rw [if_pos ⟨outside, inside⟩, stays]

theorem Goes.config_eq (hg : s.Goes s') : s'.config = s.config := by
  cases hg with
  | on config => exact config
  | enters config => exact config

theorem timed_live (h : s.Timed) (moments : List Moment) : (s.live moments).Timed := by
  induction moments generalizing s with
  | nil => exact h
  | cons moment moments ih => exact ih ((s.goes_pass moment).timed h)

theorem stays_live (s : Server) (moments : List Moment) :
    (s.live moments).stays = s.stays + s.entries moments := by
  induction moments generalizing s with
  | nil => rfl
  | cons moment moments ih =>
    have hfirst := (s.goes_pass moment).stays_eq
    rw [live, List.foldl_cons, ← live, ih, hfirst, entries]
    omega

theorem config_live (s : Server) (moments : List Moment) :
    (s.live moments).config = s.config := by
  induction moments generalizing s with
  | nil => rfl
  | cons moment moments ih => exact (ih _).trans (s.goes_pass moment).config_eq

/-- The end of a stay by its timer changes nothing unless the server is in the critical section, and
this is the stay. -/
theorem eq_of_leave_ne {stay : Nat} (h : s.leave (some stay) ≠ s) : s.Inside ∧ s.stays = stay := by
  constructor
  · by_contra hout
    exact h (leave_of_phase hout _)
  · by_contra hne
    exact h (leave_of_ne (Ne.symm hne))

/-- Whatever has happened to a server, it has counted its entries into the critical section. A timer
makes a difference only during the stay that it was set for, which is the entry of that number. And as
long as the server goes on and ends its stays by timers, there is exactly one timer for a stay. -/
theorem stays_and_timers (identity : Id) (config : Config) (moments : List Moment) :
    let s := (Server.new identity config).live moments
    s.stays = (Server.new identity config).entries moments ∧
    (∀ stay, s.leave (some stay) ≠ s →
      s.Inside ∧ (Server.new identity config).entries moments = stay) ∧
    (0 < config.criticalSection → s.down = false → s.Inside →
      s.timers.countP (·.stay = s.stays) = 1) := by
  intro s
  have hstays : s.stays = (Server.new identity config).entries moments :=
    (stays_live _ moments).trans (Nat.zero_add _)
  refine ⟨hstays, fun stay h => hstays ▸ eq_of_leave_ne h, fun hpos hup hin => ?_⟩
  have htimed : s.Timed := timed_live (timed_new identity config) moments
  have hconfig : s.config = config := config_live _ moments
  obtain ⟨timer, hmem, hstay⟩ := htimed.armed (hconfig ▸ hpos) hup hin
  have hone : (s.timers.map (·.stay)).count s.stays = 1 :=
    List.count_eq_one_of_mem htimed.apart (List.mem_map.2 ⟨timer, hmem, hstay⟩)
  rw [← hone, List.count, List.countP_map]
  refine List.countP_congr fun t _ => ?_
  simp

/-- The timer of a first stay, which has ended on request, goes off during the second one. -/
theorem stays_and_timers_stale :
    let s := (Server.new 1 {}).live [.event (.obey .elect), .event (.obey .request),
      .event (.obey .release), .event (.obey .request), .timer 0]
    s.Inside ∧ s.stays = 2 ∧ s.leave (some 1) = s ∧ s.leave (some 2) ≠ s ∧
      s.timers.countP (·.stay = 2) = 1 := by
  intro s
  have hin : s.Inside := by decide +kernel
  have hup : s.down = false := by decide +kernel
  obtain ⟨hstays, hleave, htimer⟩ := stays_and_timers 1 {} [.event (.obey .elect),
    .event (.obey .request), .event (.obey .release), .event (.obey .request), .timer 0]
  have hentries : (Server.new 1 {}).entries [.event (.obey .elect), .event (.obey .request),
    .event (.obey .release), .event (.obey .request), .timer 0] = 2 := by decide +kernel
  have htwo : s.stays = 2 := hstays.trans hentries
  refine ⟨hin, htwo, ?_, fun hsame => ?_, htwo ▸ htimer (by decide) hup hin⟩
  · by_contra hne
    exact absurd (hentries.symm.trans (hleave 1 hne).2) (by decide)
  · have hout : ¬ (s.leave (some 2)).Inside := not_inside_leave (by simp [htwo])
    exact hout (hsame.symm ▸ hin)

end Server

end RelayMesh
