import RelayMesh.Proofs.Mesh.Events

namespace RelayMesh

namespace Server

/-- What nothing that happens to a server changes. -/
def fixture (s : Server) : Id × Config := (s.identity, s.config)

variable {s s' : Server} {came : Option Message}

theorem Kept.fixture (h : s.Kept s') : s'.fixture = s.fixture := by
  rw [Server.fixture, h.identity, h.config, Server.fixture]

theorem Sends.fixture (h : Sends came s s') : s'.fixture = s.fixture := by
  rw [Server.fixture, h.identity, h.config, Server.fixture]

@[simp] theorem fixture_expire (s : Server) : s.expire.fixture = s.fixture := by
  have hsends : s.Sends none s.expire := s.sends_expire
  exact hsends.fixture

@[simp] theorem fixture_advance (s : Server) (ms : Nat) : (s.advance ms).fixture = s.fixture := by
  have hsends : s.Sends none (s.advance ms) := s.sends_advance ms
  exact hsends.fixture

@[simp] theorem fixture_announce (s : Server) : s.announce.fixture = s.fixture := by
  have hsends : s.Sends none s.announce := s.sends_announce
  exact hsends.fixture

@[simp] theorem fixture_release (s : Server) (w : Withheld) : (s.release w).fixture = s.fixture :=
  (s.sends_release w).fixture

@[simp] theorem fixture_closeLink (s : Server) (link : LinkId) :
    (s.closeLink link).fixture = s.fixture := by
  unfold closeLink
  split <;> rfl

@[simp] theorem fixture_obey (s : Server) (c : Command) : (s.obey c).1.fixture = s.fixture := by
  have hobeyed : (s.obey c).1 = s.shutdown ∨ (∃ except type msg, c = .floodClients except type msg) ∨
      Acts (fun _ => True) s (s.obey c).1 :=
    s.obey_acts (fun _ _ => trivial) fun _ _ _ _ _ => trivial
  rcases hobeyed with hdown | ⟨except, type, msg, rfl⟩ | hacts
  · rw [hdown]
    rfl
  · have hsends : s.Sends none (s.floodClients except type msg).1 :=
      s.sends_floodClients except type msg
    exact hsends.fixture
  · exact hacts.kept.fixture

@[simp] theorem fixture_learnRoutes (s : Server) (msg : Message) (link : LinkId) :
    (s.learnRoutes msg link).fixture = s.fixture := by
  obtain ⟨outbox, hlearned⟩ := s.exists_learnRoutes msg link
  rw [hlearned]
  rfl

@[simp] theorem fixture_arrive (s : Server) (hooks : Interception) (link : LinkId) (f : Frame) :
    (s.arrive hooks link f).1.fixture = s.fixture := by
  unfold arrive handleFrame
  split
  · rfl
  · split
    next id route msg _ _ =>
      split
      · split
        · exact (sends_relayChat s f.type msg.stems_self).fixture
        · rfl
      · rw [(sends_dispatch hooks _ f.type msg).fixture, fixture_learnRoutes]
    next => rfl

end Server

namespace Station

@[simp] theorem fixture_obtain (st : Station) (label : String) (capacity : Nat) (held : Bool) :
    (st.obtain label capacity held).1.server.fixture = st.server.fixture := by
  unfold obtain
  split <;> rfl

@[simp] theorem fixture_forgetPeer (st : Station) (peer : Id) :
    (st.forgetPeer peer).server.fixture = st.server.fixture := by
  unfold forgetPeer
  split <;> rfl

end Station

namespace Mesh

/-- The servers, with the identity and the settings of each. -/
def fixtures (m : Mesh) (id : Id) : Option (Id × Config) :=
  (m.station? id).map fun st => st.server.fixture

variable {m m' : Mesh} {id : Id} {st st' : Station}

theorem fixtures_set (hs : m.station? id = some st) (h : st'.server.fixture = st.server.fixture) :
    (m.set id st').fixtures = m.fixtures := by
  funext other
  rw [fixtures, fixtures, station?_set]
  split
  next he => rw [he, hs, Option.map_some, Option.map_some, h]
  next => rfl

theorem fixtures_update {change : Station → Station}
    (h : ∀ st, (change st).server.fixture = st.server.fixture) :
    (m.update id change).fixtures = m.fixtures := by
  unfold update
  split
  next st hs => exact fixtures_set hs (h st)
  next => rfl

theorem fixtures_updateAll {change : Server → Server}
    (h : ∀ s : Server, (change s).fixture = s.fixture) :
    (m.updateAll change).fixtures = m.fixtures := by
  funext id
  rw [fixtures, fixtures, station?_updateAll, Option.map_map]
  exact congrArg (Option.map · (m.station? id)) (funext fun st => h st.server)

@[simp] theorem fixtures_collect (m : Mesh) : m.collect.1.fixtures = m.fixtures := by
  have hexpire : m.expire.fixtures = m.fixtures := fixtures_updateAll Server.fixture_expire
  funext id
  obtain ⟨outbox, hcollected⟩ := m.expire.station?_collectEach m.expire.stations.keys id
  rw [← hexpire, fixtures, fixtures, collect, hcollected, Option.map_map]
  rfl

@[simp] theorem fixtures_arrive (m : Mesh) (id : Id) (link : LinkId) (f : Frame) :
    (m.arrive id link f).fixtures = m.fixtures := by
  unfold arrive
  split
  · rfl
  next st hs => exact fixtures_set hs (st.server.fixture_arrive m.hooks link f)

@[simp] theorem fixtures_deliver (m : Mesh) (t : Transit) : (m.deliver t).fixtures = m.fixtures := by
  unfold deliver
  split
  · rfl
  · exact fixtures_arrive _ _ _ _

theorem fixtures_take {k : Nat} {t : Transit} (h : m.take k = some (t, m')) :
    m'.fixtures = m.fixtures := by
  obtain ⟨wire, -, rfl⟩ := exists_wire_of_take h
  rfl

@[simp] theorem fixtures_joinOneWay (m : Mesh) (a b : Id) :
    (m.joinOneWay a b).fixtures = m.fixtures :=
  fixtures_update fun st => st.fixture_forgetPeer b

@[simp] theorem fixtures_join (m : Mesh) (a b : Id) : (m.join a b).fixtures = m.fixtures := by
  rw [join, fixtures_joinOneWay, fixtures_joinOneWay]

theorem fixtures_joinEach (m : Mesh) (a : Id) (peers : List Id) :
    (peers.foldl (fun m peer => m.join a peer) m).fixtures = m.fixtures := by
  induction peers generalizing m with
  | nil => rfl
  | cons peer peers ih => rw [List.foldl_cons, ih, fixtures_join]

@[simp] theorem fixtures_severOneWay (m : Mesh) (a b : Id) :
    (m.severOneWay a b).fixtures = m.fixtures := by
  refine fixtures_update fun st => ?_
  split
  · rfl
  · exact st.server.fixture_closeLink _

@[simp] theorem fixtures_sever (m : Mesh) (a b : Id) : (m.sever a b).fixtures = m.fixtures := by
  rw [sever, fixtures_severOneWay, fixtures_severOneWay]
  rfl

/-- One case for each kind of step at a server. -/
theorem fixtures_actAt (hs : m.station? id = some st) (s : LocalStep) :
    (m.actAt id st s).1.fixtures = m.fixtures := by
  cases s with
  | command c => exact fixtures_set hs (st.server.fixture_obey c)
  | neighbour peer label options => exact fixtures_set hs (st.fixture_obtain label _ _)
  | client label options =>
    exact fixtures_set hs (Station.fixture_obtain { st with server := st.server.mintClientId.1 } _ _ _)
  | frame label options f =>
    simp only [actAt, fixtures_arrive]
    exact fixtures_set hs (st.fixture_obtain label _ _)
  | closed label =>
    simp only [actAt]
    split
    · rfl
    · exact fixtures_set hs (st.server.fixture_closeLink _)
  | unhold label =>
    simp only [actAt]
    split
    · rfl
    · exact fixtures_set hs rfl
  | dropQueue label =>
    simp only [actAt]
    split
    · rfl
    · exact fixtures_set hs rfl
  | closeLine label options => exact fixtures_set hs (st.fixture_obtain label _ _)
  | start peers =>
    simp only [actAt, updateServer]
    rw [fixtures_update fun st => st.server.fixture_announce, fixtures_joinEach]

theorem fixtures_act {s : Step} {answer : Answer} {shown : Option Id}
    (h : m.act s = some (m', answer, shown)) : m'.fixtures = m.fixtures := by
  cases s with
  | «at» id s =>
    obtain ⟨st, hs, hact⟩ := Option.map_eq_some_iff.1 h
    cases hact
    exact fixtures_actAt hs s
  | advance ms =>
    cases h
    exact fixtures_updateAll fun s => s.fixture_advance ms
  | enable enabled =>
    cases h
    rfl
  | pick k =>
    obtain ⟨⟨t, taken⟩, ht, hact⟩ := Option.map_eq_some_iff.1 h
    cases hact
    rw [fixtures_deliver, fixtures_take ht]
  | lose k =>
    obtain ⟨⟨t, taken⟩, ht, hact⟩ := Option.map_eq_some_iff.1 h
    cases hact
    exact fixtures_take ht
  | cut a b =>
    cases h
    exact m.fixtures_sever a b

theorem fixtures_effect (m : Mesh) (mv : Move) : (m.effect mv).fixtures = m.fixtures := by
  cases mv with
  | join a b => exact m.fixtures_join a b
  | deliver place =>
    cases ht : m.wire[place]? with
    | none => rw [effect_deliver_none ht]
    | some t =>
      rw [effect_deliver ht, fixtures_deliver]
      rfl
  | step s =>
    simp only [effect]
    split
    · rfl
    next m' rest h => exact fixtures_act h

@[simp] theorem fixtures_after (m : Mesh) (e : Event) : (m.after e).fixtures = m.fixtures := by
  rw [after, fixtures_collect]
  cases e with
  | move mv => exact m.fixtures_effect mv
  | give w =>
    rw [occur, updateServer, fixtures_update fun st => st.server.fixture_release w]
    rfl

/-- Servers neither come nor go, and their identities and settings stay. -/
theorem Later.fixtures (h : m.Later m') : m'.fixtures = m.fixtures := by
  induction h with
  | now => rfl
  | move _ mv ih => rw [fixtures_after, ih]
  | give _ _ ih => rw [fixtures_after, ih]

end Mesh

end RelayMesh
