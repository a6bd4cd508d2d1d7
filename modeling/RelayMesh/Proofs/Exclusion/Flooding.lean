import RelayMesh.Proofs.Exclusion.Steps
import RelayMesh.Proofs.Overlay.Run

namespace RelayMesh

namespace Exclusion

/-- Only `minter` makes the token. -/
def behaviour (minter : Id) : Behaviour Exclusion Command where
  command a what x := if what = .mint ∧ a ≠ minter then (x, []) else x.obey what
  receive _ p x := x.receive p.msg

/-- Nobody has asked for anything, and there is no token. -/
def atRest : Overlay Exclusion := { nodes := fun a => { own := a } }

/-- The last request of `p` that the server knows of. -/
def known (x : Exclusion) (p : Id) : Nat := if p = x.own then x.number else x.requestOf p

theorem known_asked (x : Exclusion) (p : Id) :
    x.asked.known p = if p = x.own then x.number + 1 else x.known p := by
  by_cases hp : p = x.own <;> simp [known, asked, requestOf, hp]

theorem known_noted {x : Exclusion} {q : Id} (hq : q ≠ x.own) (n : Nat) (p : Id) :
    (x.noted q n).known p = if p = q then max (x.known q) n else x.known p := by
  by_cases hp : p = q
  · subst hp; simp [known, hq]
  · by_cases ho : p = x.own
    · subst ho; simp [known, hp]
    · simp [known, hp, ho]

/-- What a step tells the others: everything that is news, in floods that start here or pass on the
message that was `heard`. -/
structure Tells (x : Exclusion) (heard : Option Message) (r : Exclusion × List Outgoing) :
    Prop where
  own : r.1.own = x.own
  grows : ∀ p, x.known p ≤ r.1.known p
  news : ∀ p, x.known p < r.1.known p → ∃ m,
    .flood none MessageType.mutexRequest m ∈ r.2 ∧ m.sender = p ∧
      m.content = .mutexRequest (r.1.known p)
  floods : ∀ except type m, .flood except type m ∈ r.2 →
    ∃ n, m.content = .mutexRequest n ∧ n ≤ r.1.known m.sender ∧
      (m.path = [] ∧ m.sender = x.own ∨ heard = some m)
  sends : ∀ dest type m, .toServer dest type m ∈ r.2 → ∃ n token, m.content = .mutexToken n token

theorem tells_nothing (x : Exclusion) (heard : Option Message) : x.Tells heard (x, []) :=
  ⟨rfl, fun _ => Nat.le_refl _, fun _ h => absurd h (Nat.lt_irrefl _), by simp, by simp⟩

/-- Handing the token over tells nothing. -/
theorem Tells.handOff {x y : Exclusion} {heard : Option Message} {sends : List Outgoing}
    (h : x.Tells heard (y, sends)) (dest : Id) :
    x.Tells heard ((y.handOff dest).1, sends ++ (y.handOff dest).2) := by
  cases ht : y.token with
  | none => simpa [Exclusion.handOff, ht] using h
  | some token =>
    rw [handOff_of_token ht]
    refine ⟨h.own, h.grows, fun p hp => ?_, fun e type m hm => ?_, fun d type m hm => ?_⟩
    · obtain ⟨m, hm, hc⟩ := h.news p hp
      exact ⟨m, List.mem_append_left _ hm, hc⟩
    · exact h.floods e type m (by simpa [handOver] using hm)
    · rcases List.mem_append.1 hm with hm | hm
      · exact h.sends d type m hm
      · obtain ⟨-, -, rfl⟩ : d = dest ∧ type = MessageType.mutexToken ∧
            m = y.tokenMessage dest token := by simpa [handOver] using hm
        exact ⟨_, _, rfl⟩

theorem Tells.passOn {x y : Exclusion} {heard : Option Message} {sends : List Outgoing}
    (h : x.Tells heard (y, sends)) : x.Tells heard (y.passOn.1, sends ++ y.passOn.2) := by
  unfold Exclusion.passOn
  split
  · simpa using h
  · exact h.handOff _

theorem Tells.serve {x y : Exclusion} {heard : Option Message} {sends : List Outgoing}
    (h : x.Tells heard (y, sends)) (p : Id) :
    x.Tells heard ((y.serve p).1, sends ++ (y.serve p).2) := by
  unfold Exclusion.serve
  split
  · simpa using h
  · split
    · exact h.handOff _
    · simpa using h

/-- A change of token, phase and mark tells nothing. -/
theorem tells_of_eq {x y : Exclusion} (heard : Option Message) (own : y.own = x.own)
    (number : y.number = x.number) (requests : y.requests = x.requests) :
    x.Tells heard (y, []) := by
  have hk (p : Id) : y.known p = x.known p := by simp [known, requestOf, own, number, requests]
  exact ⟨own, fun p => Nat.le_of_eq (hk p).symm, fun p h => by simp [hk] at h, by simp, by simp⟩

theorem onToken_tells {x y : Exclusion} (token : Token) (heard : Option Message)
    (own : y.own = x.own) (number : y.number = x.number) (requests : y.requests = x.requests) :
    x.Tells heard ((y.onToken token).1, (y.onToken token).2.sends) := by
  unfold onToken
  split
  · exact tells_of_eq heard own number requests
  · simp only
    split
    · exact tells_of_eq heard own number requests
    · have h : x.Tells heard ({ y with token := some token }, []) :=
        tells_of_eq heard own number requests
      simpa using h.passOn

theorem obey_tells (x : Exclusion) (what : Command) : x.Tells none (x.obey what) := by
  cases what with
  | request =>
    by_cases hp : x.phase = .outside
    · cases ht : x.token with
      | some token =>
        rw [obey_request_of_token hp (by simp [ht])]
        exact tells_of_eq none rfl rfl rfl
      | none =>
        rw [obey_request_of_none hp ht]
        have hn : x.asked.known x.own = x.number + 1 := by simp [known_asked]
        refine ⟨rfl, fun p => ?_, fun p hlt => ?_, fun e type m hm => ?_, ?_⟩
        · rw [known_asked]
          split
          next hp => simp [hp, known]
          next => exact Nat.le_refl _
        · obtain rfl : p = x.own := by
            by_contra hne
            simp [known_asked, hne] at hlt
          exact ⟨_, List.mem_singleton_self _, rfl, by rw [hn]; rfl⟩
        · obtain ⟨-, -, rfl⟩ : e = none ∧ type = MessageType.mutexRequest ∧
              m = .new x.own (.mutexRequest (x.number + 1)) := by
            simpa [requestMessage, asked] using hm
          exact ⟨_, rfl, Nat.le_of_eq hn.symm, .inl ⟨rfl, rfl⟩⟩
        · simp [requestMessage]
    · rw [obey_request_of_phase hp]
      exact x.tells_nothing none
  | release =>
    simp only [obey, Exclusion.release]
    split
    · have h : x.Tells none ({ x with phase := .outside }, []) := tells_of_eq none rfl rfl rfl
      simpa using h.passOn
    · exact x.tells_nothing none
  | mint =>
    cases hm : x.minted with
    | true =>
      rw [obey_mint_of_minted hm]
      exact x.tells_nothing none
    | false =>
      rw [obey_mint hm]
      exact onToken_tells .fresh none rfl rfl rfl

theorem receive_tells (x : Exclusion) (msg : Message) :
    x.Tells (some msg) (x.receive msg) := by
  cases hc : msg.content with
  | mutexToken n token => rw [receive_token hc]; exact onToken_tells token _ rfl rfl rfl
  | mutexRequest n =>
    by_cases hs : msg.sender = x.own
    · rw [receive_own hc hs]
      exact x.tells_nothing _
    · rw [receive_request hc hs]
      refine Tells.serve ⟨by simp, fun p => ?_, fun p hlt => ?_, fun e type m hm => ?_, ?_⟩ _
      · rw [known_noted hs]
        split
        next hp => rw [hp]; exact Nat.le_max_left _ _
        next => exact Nat.le_refl _
      · rw [known_noted hs] at hlt ⊢
        split at hlt
        next hp =>
          subst hp
          have hk : x.known msg.sender = x.requestOf msg.sender := by simp [known, hs]
          have hlt : x.requestOf msg.sender < n := by omega
          refine ⟨msg, by simp [hlt], rfl, ?_⟩
          rw [if_pos rfl, hk, Nat.max_eq_right (Nat.le_of_lt hlt), hc]
        next => exact absurd hlt (Nat.lt_irrefl _)
      · obtain rfl : m = msg := by
          dsimp only at hm
          split at hm <;> simp_all
        refine ⟨n, hc, ?_, .inr rfl⟩
        rw [known_noted hs, if_pos rfl]
        exact Nat.le_max_right _ _
      · split <;> simp
  | _ => simpa [receive, hc] using x.tells_nothing _

/-- After a request has been heard, the server knows it. -/
theorem le_known_receive {x : Exclusion} {msg : Message} {n : Nat}
    (hc : msg.content = .mutexRequest n) (hs : msg.sender ≠ x.own) :
    n ≤ (x.receive msg).1.known msg.sender := by
  have hk : ((x.noted msg.sender n).serve msg.sender).1.known msg.sender =
      (x.noted msg.sender n).known msg.sender := by
    unfold serve
    split
    · rfl
    · split
      · rw [handOff_of_token ‹_›]; rfl
      · rfl
  rw [receive_request hc hs, hk, known_noted hs, if_pos rfl]
  exact Nat.le_max_right _ _

/-- What a server knows of the others' requests, its neighbours know too or are about to be told. -/
structure Covered (T : Topology) (s : Overlay Exclusion) : Prop where
  own : ∀ a, (s.nodes a).own = a
  path : ∀ q ∈ s.wire, ∀ n, q.msg.content = .mutexRequest n →
    ∀ b ∈ q.msg.path, n ≤ (s.nodes b).known q.msg.sender
  reach : ∀ u v, T.Linked u v → ∀ p, p ≠ v →
    (s.nodes u).known p ≤ (s.nodes v).known p ∨
      ∃ q ∈ s.wire, q.target = v ∧ q.msg.sender = p ∧
        q.msg.content = .mutexRequest ((s.nodes u).known p)

variable {T : Topology} {s : Overlay Exclusion}

theorem known_atRest (a p : Id) : (atRest.nodes a).known p = 0 := by
  unfold known
  split <;> rfl

theorem covered_atRest : Covered T atRest where
  own _ := rfl
  path _ h := by simp [atRest] at h
  reach u v _ p _ := .inl (by simp [known_atRest])

section Act

variable {t : Overlay Exclusion} {a : Id} {heard : Option Message} {r : Exclusion × List Outgoing}

theorem Tells.own_act (tells : (s.nodes a).Tells heard r) (nodes : t.nodes = s.nodes)
    (own : ∀ b, (s.nodes b).own = b) (b : Id) : ((t.act T a r).nodes b).own = b := by
  rw [Overlay.nodes_act, nodes]
  split
  next he => rw [tells.own, own, he]
  next => exact own b

theorem Tells.known_le_act (tells : (s.nodes a).Tells heard r) (nodes : t.nodes = s.nodes)
    (b p : Id) : (s.nodes b).known p ≤ ((t.act T a r).nodes b).known p := by
  rw [Overlay.nodes_act, nodes]
  split
  next he => exact he ▸ tells.grows p
  next => exact Nat.le_refl _

/-- A packet with a request is a copy of a flood. -/
theorem Tells.exists_flood {x : Exclusion} (tells : x.Tells heard r) {q : Packet} {n : Nat}
    (hq : q ∈ r.2.flatMap (T.packets a)) (hc : q.msg.content = .mutexRequest n) :
    ∃ except type m v, .flood except type m ∈ r.2 ∧ m.content = .mutexRequest n ∧
      T.Linked a v ∧ q = ⟨a, v, type, m.appendToPath a⟩ := by
  obtain ⟨o, ho, hq⟩ := List.mem_flatMap.1 hq
  cases o with
  | toServer dest type m =>
    obtain rfl : q = ⟨a, dest, type, m.appendToPath a⟩ := by simpa [Topology.packets] using hq
    obtain ⟨_, _, ht⟩ := tells.sends _ _ _ ho
    simp [ht] at hc
  | flood except type m =>
    obtain ⟨v, hl, -, -, rfl⟩ := Topology.mem_packets_flood.1 hq
    exact ⟨except, type, m, v, ho, by simpa using hc, hl, rfl⟩

/-- A step of server `a` keeps the requests covered. Packets may leave the wire if `a` knows what
they say. -/
theorem Covered.act (h : Covered T s) (nodes : t.nodes = s.nodes) (wire : ∀ q ∈ t.wire, q ∈ s.wire)
    (tells : (s.nodes a).Tells heard r) (source : ∀ m, heard = some m → ∃ q ∈ s.wire, q.msg = m)
    (keep : ∀ q ∈ s.wire, q ∈ t.wire ∨ q.target = a ∧ ∀ n, q.msg.content = .mutexRequest n →
      q.msg.sender ≠ a → n ≤ r.1.known q.msg.sender) : Covered T (t.act T a r) := by
  have hb (b : Id) : (t.act T a r).nodes b = if b = a then r.1 else s.nodes b := by
    rw [Overlay.nodes_act, nodes]
  have grows (b p : Id) : (s.nodes b).known p ≤ ((t.act T a r).nodes b).known p :=
    tells.known_le_act nodes b p
  have along {m : Message} {n : Nat} (hm : heard = some m) (hc : m.content = .mutexRequest n)
      {b : Id} (hp : b ∈ m.path) : n ≤ (s.nodes b).known m.sender := by
    obtain ⟨q, hq, rfl⟩ := source m hm
    exact h.path q hq n hc b hp
  constructor
  case own => exact tells.own_act nodes h.own
  case path =>
    intro q hq n hc b hp
    rcases List.mem_append.1 hq with hq | hq
    · exact Nat.le_trans (h.path q (wire q hq) n hc b hp) (grows b _)
    · obtain ⟨except, type, m, v, ho, hm, -, rfl⟩ := tells.exists_flood hq hc
      obtain ⟨k, hk, hle, hpath⟩ := tells.floods _ _ _ ho
      obtain rfl : k = n := by simpa [hk] using hm
      rw [Message.sender_appendToPath]
      rcases Message.mem_path_appendToPath.1 hp with hp | rfl
      · rcases hpath with ⟨he, -⟩ | hheard
        · simp [he] at hp
        · exact Nat.le_trans (along hheard hk hp) (grows b _)
      · rwa [hb, if_pos rfl]
  case reach =>
    intro u v hl p hpv
    by_cases hnews : u = a ∧ (s.nodes a).known p < r.1.known p
    · obtain ⟨rfl, hnews⟩ := hnews
      obtain ⟨m, hm, rfl, hc⟩ := tells.news p hnews
      simp only [hb u, if_true]
      by_cases hv : v ∈ m.path
      · obtain ⟨k, hk, -, ⟨he, -⟩ | hheard⟩ := tells.floods _ _ _ hm
        · simp [he] at hv
        · exact .inl (Nat.le_trans (along hheard hc hv) (grows v _))
      · refine .inr ⟨_, List.mem_append_right _ (List.mem_flatMap.2 ⟨_, hm,
          Topology.mem_packets_flood.2 ⟨v, hl, by simp, hv, rfl⟩⟩), rfl, by simp, by simp [hc]⟩
    · have same : ((t.act T a r).nodes u).known p = (s.nodes u).known p := by
        rw [hb]
        split
        next he =>
          subst he
          exact Nat.le_antisymm (Nat.le_of_not_lt fun hlt => hnews ⟨rfl, hlt⟩) (tells.grows p)
        next => rfl
      rw [same]
      rcases h.reach u v hl p hpv with hle | ⟨q, hq, rfl, rfl, hc⟩
      · exact .inl (Nat.le_trans hle (grows v p))
      · rcases keep q hq with hq | ⟨rfl, hknown⟩
        · exact .inr ⟨q, List.mem_append_left _ hq, rfl, rfl, hc⟩
        · refine .inl ?_
          rw [hb, if_pos rfl]
          exact hknown _ hc hpv

end Act

theorem Covered.command (h : Covered T s) (minter a : Id) (what : Command) :
    Covered T (s.act T a ((behaviour minter).command a what (s.nodes a))) := by
  have tells : (s.nodes a).Tells none ((behaviour minter).command a what (s.nodes a)) := by
    simp only [behaviour]
    split
    · exact tells_nothing _ _
    · exact obey_tells _ what
  exact h.act rfl (fun _ hq => hq) tells (by simp) fun q hq => .inl hq

theorem Covered.arrival (h : Covered T s) (minter : Id) {front back : List Packet} {p : Packet}
    (hw : s.wire = front ++ p :: back) :
    Covered T ((s.arrived front p back).act T p.target
      ((behaviour minter).receive p.target p (s.nodes p.target))) := by
  refine h.act (t := s.arrived front p back) rfl ?_ (receive_tells _ p.msg) ?_ ?_
  · intro q hq
    rw [hw]
    rcases List.mem_append.1 hq with hq | hq
    · exact List.mem_append_left _ hq
    · exact List.mem_append_right _ (List.mem_cons_of_mem _ hq)
  · rintro m ⟨⟩
    exact ⟨p, by simp [hw], rfl⟩
  · intro q hq
    rw [hw, List.mem_append, List.mem_cons] at hq
    rcases hq with hq | rfl | hq
    · exact .inl (List.mem_append_left _ hq)
    · exact .inr ⟨rfl, fun n hc hs => le_known_receive hc (by rwa [h.own])⟩
    · exact .inl (List.mem_append_right _ hq)

theorem run_covered (T : Topology) (minter : Id) (events : List (Event Command)) :
    Covered T (atRest.run T (behaviour minter) events) :=
  Overlay.run_invariant (fun _ a what h _ _ => h.command minter a what)
    (fun _ _ _ _ h hw _ => h.arrival minter hw) covered_atRest (Overlay.admitted_true _ _)

/-- When no request is on its way, everybody knows the last request of everybody else. -/
theorem Covered.all_heard (h : Covered T s) (hT : T.Connected)
    (hw : ∀ q ∈ s.wire, ∀ n, q.msg.content ≠ .mutexRequest n) {p q : Id}
    (hp : p ∈ T.servers) (hq : q ∈ T.servers) : (s.nodes p).number ≤ (s.nodes q).known p := by
  refine hT.spread (P := fun b => (s.nodes p).number ≤ (s.nodes b).known p) ?_ hp ?_ q hq
  · intro u v hl hu
    by_cases hv : p = v
    · subst hv
      simp [known, h.own]
    · rcases h.reach u v hl p hv with hle | ⟨r, hmem, -, -, hc⟩
      · exact Nat.le_trans hu hle
      · exact absurd hc (hw r hmem _)
  · simp [known, h.own]

theorem Covered.all_known (h : Covered T s) (hT : T.Connected) (hw : s.wire = []) {p q : Id}
    (hp : p ∈ T.servers) (hq : q ∈ T.servers) : (s.nodes p).number ≤ (s.nodes q).known p :=
  h.all_heard hT (by simp [hw]) hp hq

end Exclusion

end RelayMesh
