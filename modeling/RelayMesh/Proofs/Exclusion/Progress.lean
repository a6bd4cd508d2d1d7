import RelayMesh.Proofs.Exclusion.Flooding
import RelayMesh.Proofs.Exclusion.Ledger

namespace RelayMesh

namespace Exclusion

/-- Where a token goes, and with what. -/
def carried? (p : Packet) : Option (Id × Content) :=
  match p.msg.content with
  | .mutexToken _ _ => some (p.target, p.msg.content)
  | _ => none

theorem carried?_of_token {p : Packet} {n : Nat} {token : Token}
    (h : p.msg.content = .mutexToken n token) : carried? p = some (p.target, .mutexToken n token) := by
  simp [carried?, h]

theorem carried?_of_ne {p : Packet} (h : ∀ n token, p.msg.content ≠ .mutexToken n token) :
    carried? p = none := by
  unfold carried?
  split
  next he => exact absurd he (h _ _)
  next => rfl

/-- The pool does what the servers of the graph do. -/
structure Mirrors (T : Topology) (s : Overlay Exclusion) (pool : Pool) : Prop where
  nodes : pool.nodes = s.nodes
  flight : pool.flight.map (fun f => (f.1, f.2.content)) = s.wire.filterMap carried?
  requests : ∀ q ∈ s.wire, ∀ n, q.msg.content = .mutexRequest n →
    q.target ∈ T.servers ∧ ∃ m ∈ pool.requests, q.msg = { m with path := q.msg.path }

variable {T : Topology} {s : Overlay Exclusion} {pool : Pool} {minter : Id}

theorem mirrors_start : Mirrors T atRest Pool.start := ⟨rfl, rfl, by simp [atRest]⟩

/-- A server's packets carry the tokens that it sends. -/
theorem filterMap_carried?_packets (a : Id) {sends : List Outgoing}
    (floods : ∀ except type m, .flood except type m ∈ sends → ∃ n, m.content = .mutexRequest n)
    (tokens : ∀ dest type m, .toServer dest type m ∈ sends →
      ∃ n token, m.content = .mutexToken n token) :
    (sends.flatMap (T.packets a)).filterMap carried? =
      (sends.filterMap Outgoing.addressed?).map fun f => (f.1, f.2.content) := by
  induction sends with
  | nil => rfl
  | cons o sends ih =>
    have rest := ih (fun e type m h => floods e type m (List.mem_cons_of_mem _ h))
      (fun d type m h => tokens d type m (List.mem_cons_of_mem _ h))
    rw [List.flatMap_cons, List.filterMap_append, rest]
    cases o with
    | flood except type m =>
      obtain ⟨n, hn⟩ := floods except type m List.mem_cons_self
      have hnone : (T.packets a (.flood except type m)).filterMap carried? = [] := by
        refine List.filterMap_eq_nil_iff.2 fun p hp => carried?_of_ne fun k token => ?_
        obtain ⟨v, -, -, -, rfl⟩ := Topology.mem_packets_flood.1 hp
        simp [hn]
      simp [hnone, List.filterMap_cons, Outgoing.addressed?]
    | toServer dest type m =>
      obtain ⟨n, token, hn⟩ := tokens dest type m List.mem_cons_self
      simp [Topology.packets, carried?, hn, Outgoing.addressed?]

theorem Mirrors.act (h : Mirrors T s pool) {a : Id} {heard : Option Message}
    {r : Exclusion × List Outgoing} (tells : (s.nodes a).Tells heard r) :
    Mirrors T (s.act T a r) (pool.act a r) where
  nodes := by simp [Pool.act, Overlay.act, h.nodes]
  flight := by
    rw [Pool.act, Overlay.act, List.map_append, List.filterMap_append, h.flight,
      filterMap_carried?_packets a _ tells.sends]
    intro e type m hm
    obtain ⟨n, hn, -⟩ := tells.floods e type m hm
    exact ⟨n, hn⟩
  requests := by
    intro q hq n hc
    rcases List.mem_append.1 hq with hq | hq
    · obtain ⟨ht, m, hm, he⟩ := h.requests q hq n hc
      exact ⟨ht, m, List.mem_append_left _ hm, he⟩
    · obtain ⟨except, type, m, v, ho, -, hl, rfl⟩ := tells.exists_flood hq hc
      refine ⟨hl.target_mem, m, List.mem_append_right _ (List.mem_filterMap.2 ⟨_, ho, rfl⟩), ?_⟩
      simp only [Message.appendToPath]
      split <;> rfl

/-- What arrives is heard or taken in the pool. -/
theorem Mirrors.arrival (h : Mirrors T s pool) {front back : List Packet} {p : Packet}
    (hw : s.wire = front ++ p :: back) :
    ∃ later : List Pool.Event, Mirrors T
      ((s.arrived front p back).act T p.target ((s.nodes p.target).receive p.msg))
      (later.foldl (Pool.step T.servers.toFinset minter) pool) := by
  have rest : ∀ q ∈ front ++ back, q ∈ s.wire := by
    intro q hq
    rw [hw]
    rcases List.mem_append.1 hq with hq | hq
    · exact List.mem_append_left _ hq
    · exact List.mem_append_right _ (List.mem_cons_of_mem _ hq)
  have tells := receive_tells (s.nodes p.target) p.msg
  have parts := h.flight
  rw [hw, List.filterMap_append, List.filterMap_cons] at parts
  by_cases ht : ∃ n token, p.msg.content = .mutexToken n token
  · obtain ⟨n, token, hc⟩ := ht
    rw [carried?_of_token hc] at parts
    obtain ⟨l, r, hf, hl, hr⟩ := List.map_eq_append_iff.1 parts
    obtain ⟨⟨dest, msg⟩, r, rfl, hd, hback⟩ := List.map_eq_cons_iff.1 hr
    obtain ⟨rfl, hm⟩ : dest = p.target ∧ msg.content = .mutexToken n token := by simpa using hd
    have gone : Mirrors T (s.arrived front p back) { pool with flight := l ++ r } :=
      ⟨h.nodes, by simp [Overlay.arrived, hl, hback], fun q hq => h.requests q (rest q hq)⟩
    refine ⟨[.take l.length], ?_⟩
    have hstep : pool.step T.servers.toFinset minter (.take l.length) =
        { pool with flight := l ++ r }.act p.target ((s.nodes p.target).receive p.msg) := by
      simp [Pool.step, hf, List.eraseIdx_append_of_length_le, h.nodes, receive_token hm,
        receive_token hc]
    rw [List.foldl_cons, List.foldl_nil, hstep]
    exact gone.act tells
  · have ht : ∀ n token, p.msg.content ≠ .mutexToken n token := fun n token hc => ht ⟨n, token, hc⟩
    rw [carried?_of_ne ht] at parts
    have gone : Mirrors T (s.arrived front p back) pool :=
      ⟨h.nodes, by simp [Overlay.arrived, parts], fun q hq => h.requests q (rest q hq)⟩
    by_cases hr : ∃ n, p.msg.content = .mutexRequest n
    · obtain ⟨n, hc⟩ := hr
      obtain ⟨hs, m, hm, he⟩ := h.requests p (by simp [hw]) n hc
      obtain ⟨place, hlt, rfl⟩ := List.getElem_of_mem hm
      refine ⟨[.hear p.target place p.msg.path], ?_⟩
      have hstep : pool.step T.servers.toFinset minter (.hear p.target place p.msg.path) =
          pool.act p.target ((s.nodes p.target).receive p.msg) := by
        simp [Pool.step, hlt, hs, h.nodes, ← he]
      rw [List.foldl_cons, List.foldl_nil, hstep]
      exact gone.act tells
    · rw [receive_other (fun n hc => hr ⟨n, hc⟩) ht] at tells ⊢
      refine ⟨[], ?_⟩
      have hsame : (s.arrived front p back).act T p.target (s.nodes p.target, []) =
          s.arrived front p back := by simp [Overlay.act, Overlay.arrived]
      rw [hsame]
      exact gone

theorem Mirrors.command (h : Mirrors T s pool) {a : Id} (ha : a ∈ T.servers) (what : Command) :
    ∃ later : List Pool.Event,
      Mirrors T (s.act T a ((behaviour minter).command a what (s.nodes a)))
        (later.foldl (Pool.step T.servers.toFinset minter) pool) := by
  by_cases hmint : what = .mint ∧ a ≠ minter
  · refine ⟨[], ?_⟩
    have hsame : s.act T a ((behaviour minter).command a what (s.nodes a)) = s := by
      simp [behaviour, hmint, Overlay.act]
    rw [hsame]
    exact h
  · refine ⟨[.command a what], ?_⟩
    have hguard : a ∈ T.servers.toFinset ∧ (what = .mint → a = minter) :=
      ⟨List.mem_toFinset.2 ha, fun hw => by_contra fun hne => hmint ⟨hw, hne⟩⟩
    simp only [behaviour, hmint, if_false, List.foldl_cons, List.foldl_nil, Pool.step,
      if_pos hguard]
    rw [h.nodes]
    exact h.act (obey_tells _ what)

/-- A run on a graph is a run of a pool. -/
theorem exists_mirror (T : Topology) (minter : Id) (events : List (Event Command)) :
    ∃ pool : List Pool.Event, Mirrors T (atRest.run T (behaviour minter) events)
      (Pool.run T.servers.toFinset minter pool) := by
  refine Overlay.run_invariant (T := T) (B := behaviour minter)
    (I := fun s => ∃ pool, Mirrors T s (Pool.run T.servers.toFinset minter pool)) ?_ ?_
    ⟨[], mirrors_start⟩ (Overlay.admitted_true _ _)
  · rintro s a what ⟨pool, h⟩ ha -
    obtain ⟨later, hl⟩ := h.command ha what
    exact ⟨pool ++ later, by rwa [Pool.run, List.foldl_append]⟩
  · rintro s front p back ⟨pool, h⟩ hw -
    obtain ⟨later, hl⟩ := h.arrival hw
    exact ⟨pool ++ later, by rwa [Pool.run, List.foldl_append]⟩

/-- A token that was made and is not on its way lies with a server. -/
theorem Pool.Sound.exists_holder {servers : Finset Id} (h : Pool.Sound servers minter pool)
    (hm : (pool.nodes minter).minted = true) (hf : pool.flight = []) :
    ∃ a ∈ servers, (pool.nodes a).token.isSome := by
  by_contra hnone
  have hzero : pool.tokens servers = 0 := by
    rw [Pool.tokens, hf, List.length_nil, Nat.add_zero]
    refine Finset.sum_eq_zero fun a ha => ?_
    rw [held, if_neg fun h => hnone ⟨a, ha, h⟩]
  have hone := h.accounted
  rw [Pool.Accounted, if_pos hm, hzero] at hone
  exact absurd hone (by decide)

/-- A holder that is not inside hands the token to anybody whose request it knows. -/
theorem Pool.Sound.not_waiting {servers : Finset Id} (h : Pool.Sound servers minter pool)
    (hledger : Pool.Ledger minter pool) {holder p : Id} {token : Token}
    (ht : (pool.nodes holder).token = some token) (hi : (pool.nodes holder).phase ≠ .inside)
    (hknown : (pool.nodes p).number ≤ (pool.nodes holder).known p) :
    (pool.nodes p).phase ≠ .waiting := by
  intro hwait
  have hne : p ≠ holder := by
    rintro rfl
    have hnone := h.known.waiting p hwait
    rw [ht] at hnone
    exact absurd hnone (by simp)
  have hout : (pool.nodes holder).phase = .outside := by
    cases hphase : (pool.nodes holder).phase with
    | outside => rfl
    | waiting =>
      have hnone := h.known.waiting holder hphase
      rw [ht] at hnone
      exact absurd hnone (by simp)
    | inside => exact absurd hphase hi
  have hserved : (pool.nodes holder).requestOf p ≤ token.entry p := h.idle holder hout token ht p
  have hexact : token.entry p + 1 = (pool.nodes p).number := by
    have hrecords := hledger.held holder token ht p hne
    rwa [Pool.Records, pending, if_pos hwait] at hrecords
  rw [Exclusion.known, h.known.own, if_neg hne] at hknown
  omega

/-- When nothing is on its way and nobody is inside, the one token that was made lies with one server,
and nobody waits for it. -/
theorem nobody_forgotten (T : Topology) (hT : T.Connected) (minter : Id)
    (events : List (Event Command)) :
    let s := atRest.run T (behaviour minter) events
    s.wire = [] → (s.nodes minter).minted = true →
      (∀ a ∈ T.servers, (s.nodes a).phase ≠ .inside) →
        (∀ a ∈ T.servers, (s.nodes a).phase ≠ .waiting) ∧
          ∃! a, a ∈ T.servers ∧ (s.nodes a).token.isSome := by
  intro s hw hm hinside
  obtain ⟨later, hp⟩ := exists_mirror T minter events
  have sound : Pool.Sound T.servers.toFinset minter (Pool.run T.servers.toFinset minter later) :=
    Pool.run_sound later
  have ledger : Pool.Ledger minter (Pool.run T.servers.toFinset minter later) :=
    Pool.run_ledger _ later
  have covered : Covered T s := run_covered T minter events
  generalize Pool.run T.servers.toFinset minter later = pool at hp sound ledger
  have hnodes : s.nodes = pool.nodes := hp.nodes.symm
  have hflight : pool.flight = [] := by simpa [show s.wire = [] from hw, s] using hp.flight
  rw [hnodes] at hm hinside ⊢
  obtain ⟨holder, hholder, htoken⟩ := sound.exists_holder hm hflight
  obtain ⟨token, ht⟩ := Option.isSome_iff_exists.1 htoken
  have hmem : holder ∈ T.servers := List.mem_toFinset.1 hholder
  refine ⟨fun p hps => ?_, holder, ⟨hmem, htoken⟩, fun b hb => ?_⟩
  · have hknown := covered.all_known hT hw hps hmem
    rw [hnodes] at hknown
    exact sound.not_waiting ledger ht (hinside holder hmem) hknown
  · exact sound.accounted.eq_of_held (List.mem_toFinset.2 hb.1) hholder hb.2 htoken

/-- Server 3 asks before there is a token, server 1 while server 3 is inside. -/
def turns : List (Event Command) :=
  [.command 3 .request, .command 1 .mint, .deliver 0, .deliver 0, .deliver 0, .command 1 .request,
    .deliver 0, .deliver 0, .command 3 .release, .deliver 0, .command 1 .release]

theorem nobody_forgotten_turns :
    let s := atRest.run .row (behaviour 1) turns
    s.wire = [] ∧ (s.nodes 1).minted = true ∧
      (∀ a ∈ Topology.row.servers, (s.nodes a).phase ≠ .inside) ∧
        (∀ a ∈ Topology.row.servers, (s.nodes a).phase ≠ .waiting) ∧
          ∃! a, a ∈ Topology.row.servers ∧ (s.nodes a).token.isSome := by
  intro s
  have hw : s.wire = [] := by decide
  have hm : (s.nodes 1).minted = true := by decide
  have hi : ∀ a ∈ Topology.row.servers, (s.nodes a).phase ≠ .inside :=
    Topology.forall_servers (by decide)
  exact ⟨hw, hm, hi, nobody_forgotten .row Topology.connected_row 1 turns hw hm hi⟩

end Exclusion

end RelayMesh
