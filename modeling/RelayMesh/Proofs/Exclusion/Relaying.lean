import RelayMesh.Proofs.Exclusion.Flooding

namespace RelayMesh

namespace Exclusion

/-- Every server does what its operator says and what the messages ask for. -/
def service : Behaviour Exclusion Command where
  command _ what x := x.obey what
  receive _ p x := x.receive p.msg

/-- The messages that a step floods. -/
def flooded (r : Exclusion × List Outgoing) : List Message := r.2.filterMap Outgoing.flooded?

@[simp] theorem flooded_handOff (x : Exclusion) (dest : Id) : flooded (x.handOff dest) = [] := by
  unfold handOff
  split <;> simp [flooded, Outgoing.flooded?]

@[simp] theorem flooded_passOn (x : Exclusion) : flooded x.passOn = [] := by
  unfold passOn
  split
  · rfl
  · exact flooded_handOff _ _

@[simp] theorem flooded_serve (x : Exclusion) (p : Id) : flooded (x.serve p) = [] := by
  unfold serve
  split
  · rfl
  · split
    · exact flooded_handOff _ _
    · rfl

theorem flooded_onToken (x y : Exclusion) (token : Token) :
    flooded (y, (x.onToken token).2.sends) = [] := by
  unfold onToken
  split
  · rfl
  · simp only
    split
    · rfl
    · exact flooded_passOn _

/-- A step floods nothing, or one message with a request that the server did not know of before. -/
inductive Newsworthy (x : Exclusion) (r : Exclusion × List Outgoing) : Prop
  | quiet (h : flooded r = [])
  | news (m : Message) (n : Nat) (h : flooded r = [m]) (hc : m.content = .mutexRequest n)
      (before : x.known m.sender < n) (after : n ≤ r.1.known m.sender)

theorem obey_newsworthy (x : Exclusion) (what : Command) : x.Newsworthy (x.obey what) := by
  cases what with
  | request =>
    by_cases hp : x.phase = .outside
    · cases ht : x.token with
      | some token =>
        rw [obey_request_of_token hp (by simp [ht])]
        exact .quiet rfl
      | none =>
        rw [obey_request_of_none hp ht]
        refine .news (.new x.own (.mutexRequest (x.number + 1))) (x.number + 1) rfl rfl ?_ ?_
        · simp [known, Message.new]
        · simp [known_asked, Message.new]
    · rw [obey_request_of_phase hp]
      exact .quiet rfl
  | release =>
    simp only [obey, Exclusion.release]
    split
    · exact .quiet (flooded_passOn _)
    · exact .quiet rfl
  | mint =>
    cases hm : x.minted with
    | true => rw [obey_mint_of_minted hm]; exact .quiet rfl
    | false => rw [obey_mint hm]; exact .quiet (flooded_onToken _ _ _)

theorem receive_newsworthy (x : Exclusion) (msg : Message) : x.Newsworthy (x.receive msg) := by
  cases hc : msg.content with
  | mutexToken n token => rw [receive_token hc]; exact .quiet (flooded_onToken _ _ _)
  | mutexRequest n =>
    by_cases hs : msg.sender = x.own
    · rw [receive_own hc hs]; exact .quiet rfl
    · have after := le_known_receive hc hs
      rw [receive_request hc hs] at after ⊢
      have served := flooded_serve (x.noted msg.sender n) msg.sender
      by_cases hlt : x.requestOf msg.sender < n
      · refine .news msg n ?_ hc (by simpa [known, hs] using hlt) after
        simpa [flooded, hlt, Outgoing.flooded?] using served
      · refine .quiet ?_
        simpa [flooded, hlt] using served
  | _ => rw [receive_other (by simp [hc]) (by simp [hc])]; exact .quiet rfl

/-- Server `a` floods request `n` of `p`. -/
def Floods (a p : Id) (n : Nat) (o : Id × Outgoing) : Prop :=
  o.1 = a ∧ ∃ m ∈ o.2.flooded?, m.sender = p ∧ m.content = .mutexRequest n

instance (a p : Id) (n : Nat) : DecidablePred (Floods a p n) := fun o =>
  inferInstanceAs (Decidable (o.1 = a ∧ ∃ m ∈ o.2.flooded?, m.sender = p ∧ m.content = .mutexRequest n))

theorem countP_floods (a b p : Id) (n : Nat) (r : Exclusion × List Outgoing) :
    (r.2.map (b, ·)).countP (Floods a p n ·) =
      (flooded r).countP fun m => b = a ∧ m.sender = p ∧ m.content = .mutexRequest n := by
  rw [flooded, List.countP_filterMap, List.countP_map]
  congr 1
  funext o
  cases h : o.flooded? <;> simp [Floods, h]

/-- A step of server `b` floods a request once at most, and only if it was news there. -/
theorem Newsworthy.countP_le {x : Exclusion} {r : Exclusion × List Outgoing} (h : x.Newsworthy r)
    (a b p : Id) (n : Nat) :
    (r.2.map (b, ·)).countP (Floods a p n ·) ≤
      if b = a ∧ x.known p < n ∧ n ≤ r.1.known p then 1 else 0 := by
  rw [countP_floods]
  cases h with
  | quiet h => simp [h]
  | news m k h hc before after =>
    rw [h, List.countP_singleton]
    by_cases hm : b = a ∧ m.sender = p ∧ k = n
    · obtain ⟨rfl, rfl, rfl⟩ := hm
      simp [hc, before, after]
    · simp [hc, hm]

variable {T : Topology} {s : Overlay Exclusion}

/-- An event is for nobody, or one server takes a step. -/
theorem step_service_cases (T : Topology) (s : Overlay Exclusion) (e : Event Command) :
    (s.step T service e = s ∧ s.sends T service e = []) ∨
      ∃ (t : Overlay Exclusion) (b : Id) (heard : Option Message) (r : Exclusion × List Outgoing),
        t.nodes = s.nodes ∧ s.step T service e = t.act T b r ∧
        s.sends T service e = r.2.map (b, ·) ∧ (s.nodes b).Tells heard r ∧
        (s.nodes b).Newsworthy r := by
  cases e with
  | command b what =>
    simp only [Overlay.step, Overlay.sends]
    split
    · exact .inr ⟨s, b, none, _, rfl, rfl, rfl, obey_tells _ what, obey_newsworthy _ what⟩
    · exact .inl ⟨rfl, rfl⟩
  | deliver place =>
    cases hp : s.wire[place]? with
    | none => exact .inl (by simp [Overlay.step, Overlay.sends, hp])
    | some p =>
      refine .inr ⟨s.arrived (s.wire.take place) p (s.wire.drop (place + 1)), p.target, some p.msg,
        (s.nodes p.target).receive p.msg, rfl, ?_, ?_, receive_tells _ _, receive_newsworthy _ _⟩
      · simp [Overlay.step, hp, service]
      · simp [Overlay.sends, hp, service]

/-- In an event, a server floods a request once at most, and only if it comes to know of it. -/
theorem countP_sends_le (T : Topology) (s : Overlay Exclusion) (e : Event Command) (a p : Id)
    (n : Nat) :
    (s.sends T service e).countP (Floods a p n ·) ≤
      if (s.nodes a).known p < n ∧ n ≤ ((s.step T service e).nodes a).known p then 1 else 0 := by
  rcases step_service_cases T s e with ⟨-, hs⟩ | ⟨t, b, heard, r, -, hstep, hs, -, news⟩
  · simp [hs]
  · rw [hs, hstep]
    refine Nat.le_trans (news.countP_le a b p n) ?_
    by_cases hb : b = a
    · subst hb
      simp
    · simp [hb]

theorem known_le_step (T : Topology) (s : Overlay Exclusion) (e : Event Command) (a p : Id) :
    (s.nodes a).known p ≤ ((s.step T service e).nodes a).known p := by
  rcases step_service_cases T s e with ⟨hstep, -⟩ | ⟨t, b, heard, r, ht, hstep, -, tells, -⟩
  · exact Nat.le_of_eq (by rw [hstep])
  · rw [hstep]
    by_cases ha : a = b
    · subst ha
      simpa using tells.grows p
    · exact Nat.le_of_eq (by rw [Overlay.nodes_act_ne _ ha, ht])

/-- A request is flooded once at most by each server, and not at all by one that knows of it. -/
theorem countP_log_le (T : Topology) (s : Overlay Exclusion) (events : List (Event Command))
    (a p : Id) (n : Nat) :
    (s.log T service events).countP (Floods a p n ·) ≤
      if n ≤ (s.nodes a).known p then 0 else 1 := by
  induction events generalizing s with
  | nil => simp [Overlay.log]
  | cons e events ih =>
    rw [Overlay.log, List.countP_append]
    have now := countP_sends_le T s e a p n
    have later := ih (s.step T service e)
    have grows := known_le_step T s e a p
    split at now <;> split at later <;> split <;> omega

/-- Nobody knows of more requests than were made, and nobody lists its own. -/
structure Genuine (s : Overlay Exclusion) : Prop where
  own : ∀ a, (s.nodes a).own = a
  known : ∀ a p, (s.nodes a).known p ≤ (s.nodes p).number
  wire : ∀ q ∈ s.wire, ∀ n, q.msg.content = .mutexRequest n → n ≤ (s.nodes q.msg.sender).number
  unlisted : ∀ a, (s.nodes a).requests.get? a = none

theorem known_of_own {x : Exclusion} {p : Id} (h : x.own = p) : x.known p = x.number := by
  simp [Exclusion.known, h]

theorem Tells.number_le {x : Exclusion} {heard : Option Message} {r : Exclusion × List Outgoing}
    (h : x.Tells heard r) : x.number ≤ r.1.number := by
  have grows := h.grows x.own
  rwa [known_of_own rfl, known_of_own h.own] at grows

theorem genuine_atRest : Genuine atRest where
  own _ := rfl
  known a p := by simp [known_atRest]
  wire _ h := by simp [atRest] at h
  unlisted _ := rfl

theorem Genuine.act (h : Genuine s) {t : Overlay Exclusion} (nodes : t.nodes = s.nodes)
    (wire : ∀ q ∈ t.wire, q ∈ s.wire) {a : Id} {heard : Option Message}
    {r : Exclusion × List Outgoing} (tells : (s.nodes a).Tells heard r)
    (source : ∀ m, heard = some m → ∃ q ∈ s.wire, q.msg = m)
    (unlisted : r.1.requests.get? a = (s.nodes a).requests.get? a) : Genuine (t.act T a r) := by
  have hb (b : Id) : (t.act T a r).nodes b = if b = a then r.1 else s.nodes b := by
    rw [Overlay.nodes_act, nodes]
  have own : ∀ b, ((t.act T a r).nodes b).own = b := tells.own_act nodes h.own
  have number (p : Id) : (s.nodes p).number ≤ ((t.act T a r).nodes p).number := by
    rw [hb]
    split
    next he => exact he ▸ tells.number_le
    next => exact Nat.le_refl _
  -- what the server floods was asked for: it is its own request, or it was on the wire
  have floods {except : Option Id} {type : MessageType} {m : Message}
      (hm : .flood except type m ∈ r.2) {n : Nat} (hc : m.content = .mutexRequest n) :
      n ≤ ((t.act T a r).nodes m.sender).number := by
    obtain ⟨k, hk, hle, ⟨-, hsender⟩ | hheard⟩ := tells.floods _ _ _ hm
    · obtain rfl : k = n := by simpa [hk] using hc
      rw [h.own] at hsender
      rw [hsender] at hle ⊢
      rwa [← known_of_own (own a), hb, if_pos rfl]
    · obtain ⟨q, hq, rfl⟩ := source m hheard
      exact Nat.le_trans (h.wire q hq n hc) (number _)
  constructor
  case own => exact own
  case known =>
    intro b p
    rw [hb b]
    split
    next he =>
      rcases Nat.lt_or_ge ((s.nodes a).known p) (r.1.known p) with hlt | hge
      · obtain ⟨m, hm, rfl, hc⟩ := tells.news p hlt
        exact floods hm hc
      · exact Nat.le_trans hge (Nat.le_trans (h.known a p) (number p))
    next => exact Nat.le_trans (h.known b p) (number p)
  case wire =>
    intro q hq n hc
    rcases List.mem_append.1 hq with hq | hq
    · exact Nat.le_trans (h.wire q (wire q hq) n hc) (number _)
    · obtain ⟨except, type, m, v, ho, hm, -, rfl⟩ := tells.exists_flood hq hc
      rw [Message.sender_appendToPath]
      exact floods ho hm
  case unlisted =>
    intro b
    rw [hb]
    split
    next he => rw [he, unlisted, h.unlisted]
    next => exact h.unlisted b

theorem Genuine.command (h : Genuine s) (a : Id) (what : Command) :
    Genuine (s.act T a (service.command a what (s.nodes a))) :=
  h.act rfl (fun _ hq => hq) (obey_tells _ what) (by simp) (by rw [service, requests_obey])

theorem Genuine.arrival (h : Genuine s) {front back : List Packet} {p : Packet}
    (hw : s.wire = front ++ p :: back) :
    Genuine ((s.arrived front p back).act T p.target
      (service.receive p.target p (s.nodes p.target))) := by
  refine h.act (t := s.arrived front p back) rfl ?_ (receive_tells _ p.msg) ?_ ?_
  · intro q hq
    rw [hw]
    rcases List.mem_append.1 hq with hq | hq
    · exact List.mem_append_left _ hq
    · exact List.mem_append_right _ (List.mem_cons_of_mem _ hq)
  · rintro m ⟨⟩
    exact ⟨p, by simp [hw], rfl⟩
  · have key := get?_requests_receive (s.nodes p.target) p.msg
    rwa [h.own] at key

theorem run_service_covered (T : Topology) (events : List (Event Command)) :
    Covered T (atRest.run T service events) :=
  Overlay.run_invariant
    (fun _ _ what h _ _ => h.act rfl (fun _ hq => hq) (obey_tells _ what) (by simp)
      fun _ hq => .inl hq)
    (fun _ _ _ _ h hw _ => h.arrival 0 hw) covered_atRest (Overlay.admitted_true _ _)

theorem run_service_genuine (T : Topology) (events : List (Event Command)) :
    Genuine (atRest.run T service events) :=
  Overlay.run_invariant (fun _ a what h _ _ => h.command a what)
    (fun _ _ _ _ h hw _ => h.arrival hw) genuine_atRest (Overlay.admitted_true _ _)

/-- Whatever the servers of a connected graph do, and in whatever order messages arrive: each server
floods each request once at most; when no request is on its way, everybody knows the last request of
everybody else; and nobody ever lists a request of its own. -/
theorem requests_reach_everybody (hT : T.Connected) (events : List (Event Command)) :
    (∀ a p n, (atRest.log T service events).countP (Floods a p n ·) ≤ 1) ∧
    ((∀ q ∈ (atRest.run T service events).wire, ∀ n, q.msg.content ≠ .mutexRequest n) →
      ∀ p ∈ T.servers, ∀ q ∈ T.servers, p ≠ q →
        ((atRest.run T service events).nodes q).requestOf p =
          ((atRest.run T service events).nodes p).number) ∧
    ∀ a, ((atRest.run T service events).nodes a).requests.get? a = none := by
  have genuine := run_service_genuine T events
  refine ⟨fun a p n => ?_, fun hw p hp q hq hne => ?_, genuine.unlisted⟩
  · have once := countP_log_le T atRest events a p n
    split at once <;> omega
  · have upper := genuine.known q p
    have lower := (run_service_covered T events).all_heard hT hw hp hq
    have hk : ((atRest.run T service events).nodes q).known p =
        ((atRest.run T service events).nodes q).requestOf p := by
      simp [Exclusion.known, genuine.own, hne]
    omega

/-- Server 3 hears of the second request of server 1 before both copies of the first one. -/
def overtaking : List (Event Command) :=
  [.command 2 .mint, .command 1 .request, .deliver 0, .deliver 2, .command 2 .request, .deliver 2,
    .command 1 .release, .deliver 4, .command 1 .request, .deliver 5] ++ List.replicate 8 (.deliver 0)

theorem requests_reach_everybody_overtaking :
    let s := atRest.run .triangle service overtaking
    s.wire = [] ∧ (s.nodes 1).number = 2 ∧ (s.nodes 3).requestOf 1 = 2 ∧
      (s.nodes 3).requestOf 2 = (s.nodes 2).number ∧
        (atRest.log .triangle service overtaking).countP (Floods 3 1 2 ·) ≤ 1 := by
  intro s
  have hw : s.wire = [] := by decide
  have hn : (s.nodes 1).number = 2 := by decide
  obtain ⟨once, known, -⟩ := requests_reach_everybody Topology.connected_triangle overtaking
  have quiet : ∀ q ∈ s.wire, ∀ n, q.msg.content ≠ .mutexRequest n := by simp [hw]
  have h1 := known quiet 1 (by decide) 3 (by decide) (by decide)
  have h2 := known quiet 2 (by decide) 3 (by decide) (by decide)
  exact ⟨hw, hn, h1.trans hn, h2, once 3 1 2⟩

end Exclusion

end RelayMesh
