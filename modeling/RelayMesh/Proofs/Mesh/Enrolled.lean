import RelayMesh.Proofs.Mesh.Sane
import RelayMesh.Proofs.Server.Among

namespace RelayMesh

namespace Server

/-- The identity that a server gives to its client number `k`. -/
def clientId (identity : Id) (k : Nat) : Id :=
  UInt32.ofNat (min (identity.toNat * clientsPerServer + k) maxWord)

theorem mintClientId_eq (s : Server) : s.mintClientId.2 = clientId s.identity s.minted := rfl

end Server

namespace Server

/-- The server has accepted at least so many clients, it has routes to servers and to these clients,
and on the paths that it has written there are servers only. -/
structure Enrolled (servers : List Id) (least : Nat) (id : Id) (s : Server) : Prop where
  member : id ∈ servers
  identity : s.identity = id
  least : least ≤ s.minted
  most : s.minted ≤ clientsPerServer
  routes : ∀ other, (s.routes.get? other).isSome →
    other ∈ servers ∨ ∃ k < s.minted, other = clientId id k
  queues : ∀ link, ∀ f ∈ s.outbox.waiting link, f.Names servers

namespace Enrolled

variable {servers : List Id} {least : Nat} {id : Id} {s s' : Server}

theorem among (h : s.Enrolled servers least id) (ha : Among servers s s') :
    s'.Enrolled servers least id where
  member := h.member
  identity := ha.identity.trans h.identity
  least := ha.minted ▸ h.least
  most := ha.minted ▸ h.most
  routes := by
    intro other hsome
    rw [ha.minted]
    exact (ha.routes other hsome).elim .inl (h.routes other)
  queues := by
    intro link f hf
    obtain ⟨frames, hq, hnew⟩ := ha.outbox.queues link
    rw [hq] at hf
    exact (List.mem_append.1 hf).elim (h.queues link f) (hnew f)

theorem mono (h : s.Enrolled servers least id) {fewer : Nat} (hle : fewer ≤ least) :
    s.Enrolled servers fewer id :=
  ⟨h.member, h.identity, Nat.le_trans hle h.least, h.most, h.routes, h.queues⟩

theorem self_mem (h : s.Enrolled servers least id) : s.identity ∈ servers := h.identity ▸ h.member

/-- Frames have gone from the queues. -/
theorem unqueue (h : s.Enrolled servers least id) {outbox : Outbox}
    (hq : ∀ link, ∀ f ∈ outbox.waiting link, f ∈ s.outbox.waiting link) :
    ({ s with outbox } : Server).Enrolled servers least id :=
  ⟨h.member, h.identity, h.least, h.most, h.routes, fun link f hf => h.queues link f (hq link f hf)⟩

theorem addNeighbour (h : s.Enrolled servers least id) {peer : Id} (hp : peer ∈ servers)
    (link : LinkId) : (s.addNeighbour peer link).Enrolled servers least id where
  member := h.member
  identity := h.identity
  least := h.least
  most := h.most
  routes := by
    intro other hsome
    rw [get?_addNeighbour] at hsome
    split at hsome
    next he => exact .inl (he.1 ▸ hp)
    next => exact h.routes other hsome
  queues := h.queues

theorem mintClientId (h : s.Enrolled servers least id) (hk : s.minted < clientsPerServer) :
    s.mintClientId.1.Enrolled servers (s.minted + 1) id where
  member := h.member
  identity := h.identity
  least := Nat.le_refl _
  most := hk
  routes := by
    intro other hsome
    refine (h.routes other hsome).imp_right ?_
    rintro ⟨k, hk, he⟩
    exact ⟨k, Nat.lt_succ_of_lt hk, he⟩
  queues := h.queues

/-- A client that the server has accepted gets a route. -/
theorem addClient (h : s.Enrolled servers least id) {k : Nat} (hk : k < s.minted) (link : LinkId) :
    (s.addClient (clientId id k) link).Enrolled servers least id where
  member := h.member
  identity := h.identity
  least := h.least
  most := h.most
  routes := by
    intro other hsome
    rw [Station.get?_addClient] at hsome
    split at hsome
    next he => exact .inr ⟨k, hk, he.1⟩
    next => exact h.routes other hsome
  queues := h.queues

end Enrolled

end Server

namespace Station

variable {servers : List Id} {least : Nat} {id : Id} {st : Station}

/-- A new connection has an empty queue. -/
theorem enrolled_connect (h : st.server.Enrolled servers least id) (label : String) (peer : Option Id)
    (capacity : Nat) (held : Bool) :
    (st.connect label peer capacity held).1.server.Enrolled servers least id := by
  refine h.unqueue fun link f hf => ?_
  rw [waiting_addLink] at hf
  split at hf
  · simp at hf
  · exact hf

theorem enrolled_obtain (h : st.server.Enrolled servers least id) (label : String) (capacity : Nat)
    (held : Bool) : (st.obtain label capacity held).1.server.Enrolled servers least id := by
  unfold obtain
  split
  · exact h
  · exact enrolled_connect h label none capacity held

/-- The server accepts its next client, over some connection. -/
theorem enrolled_accept (h : st.server.Enrolled servers least id)
    (hk : st.server.minted < Server.clientsPerServer) {label : String} {capacity : Nat} {held : Bool}
    {st' : Station} {link : LinkId} (ho : ({ st with
      server := st.server.mintClientId.1 } : Station).obtain label capacity held = (st', link)) :
    (st'.server.addClient st.server.mintClientId.2 link).Enrolled servers (st.server.minted + 1)
      id := by
  have hminted : ({ st with server := st.server.mintClientId.1 } : Station).server.Enrolled
      servers (st.server.minted + 1) id := h.mintClientId hk
  have hobtained := enrolled_obtain hminted label capacity held
  rw [ho] at hobtained
  rw [Server.mintClientId_eq, h.identity]
  exact hobtained.addClient hobtained.least link

theorem enrolled_dropQueue (h : st.server.Enrolled servers least id) (link : LinkId) :
    (st.dropQueue link).server.Enrolled servers least id := by
  refine h.unqueue fun other f hf => ?_
  have hf : f ∈ Outbox.waiting (SortedMap.erase st.server.outbox link) other := hf
  rw [Outbox.waiting_erase] at hf
  split at hf
  · simp at hf
  · exact hf

theorem enrolled_forgetPeer (h : st.server.Enrolled servers least id) (peer : Id) :
    (st.forgetPeer peer).server.Enrolled servers least id := by
  unfold forgetPeer
  split
  · exact h
  next line _ => exact enrolled_dropQueue h line.link

/-- A step at a server that names only `servers` from outside, and no client beyond the hundredth. -/
def ProperAt (servers : List Id) (st : Station) : Mesh.LocalStep → Prop
  | .command c => ∀ msg ∈ c.message?, msg.path ⊆ servers
  | .neighbour peer _ _ => peer ∈ servers
  | .client _ _ => st.server.minted < Server.clientsPerServer
  | .frame _ _ f => f.Names servers
  | .start peers => peers ⊆ servers
  | _ => True

end Station

namespace Mesh

/-- Servers are connected with servers only, nothing from outside has others than servers on its path,
and no server accepts more than a hundred clients. Anything else may happen. -/
def Proper (servers : List Id) (m : Mesh) : Move → Prop
  | .join a b => a ∈ servers ∧ b ∈ servers
  | .step (.at id s) => ∀ st ∈ m.station? id, st.ProperAt servers s
  | _ => True

instance (servers : List Id) (st : Station) : DecidablePred (st.ProperAt servers)
  | .command c => inferInstanceAs (Decidable (∀ msg ∈ c.message?, msg.path ⊆ servers))
  | .neighbour peer _ _ => inferInstanceAs (Decidable (peer ∈ servers))
  | .client _ _ => inferInstanceAs (Decidable (st.server.minted < Server.clientsPerServer))
  | .frame _ _ f => inferInstanceAs (Decidable (f.Names servers))
  | .start peers => inferInstanceAs (Decidable (peers ⊆ servers))
  | .closed _ | .unhold _ | .dropQueue _ | .closeLine _ _ => .isTrue trivial

instance (servers : List Id) (m : Mesh) : DecidablePred (m.Proper servers)
  | .join a b => inferInstanceAs (Decidable (a ∈ servers ∧ b ∈ servers))
  | .step (.at id s) => inferInstanceAs (Decidable (∀ st ∈ m.station? id, st.ProperAt servers s))
  | .deliver _ | .step (.advance _) | .step (.enable _) | .step (.pick _) | .step (.lose _)
  | .step (.cut _ _) => .isTrue trivial

/-- All servers have accepted at least so many clients, and on all paths there are servers only. -/
structure Enrolled (servers : List Id) (floor : Id → Nat) (m : Mesh) : Prop where
  stations : ∀ id st, m.station? id = some st → st.server.Enrolled servers (floor id) id
  wire : ∀ t ∈ m.wire, t.frame.Names servers
  waiting : ∀ w ∈ m.waiting, w.msg.path ⊆ servers

namespace Enrolled

variable {servers : List Id} {floor : Id → Nat} {m : Mesh} {id : Id} {st : Station}

theorem setLeast (h : m.Enrolled servers floor) {least : Nat}
    (hst : st.server.Enrolled servers least id) :
    (m.set id st).Enrolled servers (Function.update floor id least) where
  stations := by
    intro other st' hs
    rw [station?_set] at hs
    rw [Function.update_apply]
    split at hs
    next he =>
      obtain rfl := Option.some.inj hs
      rw [if_pos he]
      exact he ▸ hst
    next he =>
      rw [if_neg he]
      exact h.stations other st' hs
  wire := h.wire
  waiting := h.waiting

theorem set (h : m.Enrolled servers floor) (hst : st.server.Enrolled servers (floor id) id) :
    (m.set id st).Enrolled servers floor := by
  have hset := h.setLeast hst
  rwa [Function.update_eq_self] at hset

theorem update (h : m.Enrolled servers floor) {change : Station → Station}
    (hc : ∀ st, m.station? id = some st → st.server.Enrolled servers (floor id) id →
      (change st).server.Enrolled servers (floor id) id) :
    (m.update id change).Enrolled servers floor := by
  unfold Mesh.update
  split
  next st hs => exact h.set (hc st hs (h.stations id st hs))
  next => exact h

theorem updateAll (h : m.Enrolled servers floor) {change : Server → Server}
    (hc : ∀ s : Server, s.identity ∈ servers → Server.Among servers s (change s)) :
    (m.updateAll change).Enrolled servers floor where
  stations := by
    intro id st hs
    rw [station?_updateAll] at hs
    obtain ⟨old, hold, rfl⟩ := Option.map_eq_some_iff.1 hs
    have hen := h.stations id old hold
    exact hen.among (hc _ hen.self_mem)
  wire := h.wire
  waiting := h.waiting

theorem refile (h : m.Enrolled servers floor) {m' : Mesh} (hs : m'.stations = m.stations)
    (hwire : ∀ t ∈ m'.wire, t ∈ m.wire) (hwaiting : ∀ w ∈ m'.waiting, w ∈ m.waiting) :
    m'.Enrolled servers floor where
  stations id st hst := h.stations id st (by unfold station? at hst ⊢; rwa [← hs])
  wire t ht := h.wire t (hwire t ht)
  waiting w hw := h.waiting w (hwaiting w hw)

theorem collectAt (h : m.Enrolled servers floor) (id : Id) :
    (m.collectAt id).1.Enrolled servers floor := by
  unfold Mesh.collectAt
  cases hs : m.station? id with
  | none => exact h
  | some st =>
    obtain ⟨outbox, hdrained, hw⟩ := st.exists_drain
    have hst := h.stations id st hs
    have hkept : (st.drain.1).server.Enrolled servers (floor id) id := by
      rw [hdrained]
      refine hst.unqueue fun link f hf => ?_
      rw [hw] at hf
      split at hf
      · simp at hf
      · exact hf
    have hset := h.set hkept
    refine ⟨hset.stations, fun t ht => ?_, hset.waiting⟩
    rcases List.mem_append.1 ht with hold | hnew
    · exact h.wire t hold
    · obtain ⟨⟨line, f⟩, hmem, hpeer⟩ := List.mem_filterMap.1 hnew
      obtain ⟨peer, -, rfl⟩ := Option.map_eq_some_iff.1 hpeer
      exact hst.queues line.link f (Station.waiting_of_mem_drainLines hmem).2

theorem settle (h : m.Enrolled servers floor) : m.settle.1.Enrolled servers floor := by
  refine settle_invariant (I := Enrolled servers floor)
    (fun m h => h.updateAll fun s hid => Server.among_expire hid) (fun m id h => h.collectAt id)
    (fun m w h hw => ?_) h
  have hrest : ({ m with waiting := m.waiting.eraseP m.isReady } : Mesh).Enrolled servers floor :=
    h.refile rfl (fun _ ht => ht) fun _ hw => List.mem_of_mem_eraseP hw
  exact hrest.update fun st _ hst => hst.among
    (Server.among_release hst.self_mem (h.waiting w (List.mem_of_find?_eq_some hw)))

theorem arrive (h : m.Enrolled servers floor) (id : Id) (link : LinkId) {f : Frame}
    (hf : f.Names servers) : (m.arrive id link f).Enrolled servers floor := by
  unfold Mesh.arrive
  split
  · exact h
  next st hs =>
    have hst := h.stations id st hs
    have harrived : (st.server.arrive m.hooks link f).1.Enrolled servers (floor id) id :=
      hst.among (Server.among_arrive hst.self_mem m.hooks link hf)
    have hset : (m.set id { st with server := _ }).Enrolled servers floor := h.set harrived
    refine ⟨hset.stations, hset.wire, fun w hw => ?_⟩
    rcases List.mem_append.1 hw with hold | hnew
    · exact h.waiting w hold
    · exact hf.path (Server.withheld_arrive (Option.mem_toList.1 hnew))

theorem deliver (h : m.Enrolled servers floor) {t : Transit} (ht : t.frame.Names servers) :
    (m.deliver t).Enrolled servers floor := by
  unfold Mesh.deliver
  split
  · exact h
  · exact h.arrive _ _ ht

theorem joinOneWay (h : m.Enrolled servers floor) (id : Id) {peer : Id} (hp : peer ∈ servers) :
    (m.joinOneWay id peer).Enrolled servers floor :=
  h.update fun _ _ hst => (Station.enrolled_connect (Station.enrolled_forgetPeer hst peer) _ _ _
    _).addNeighbour hp _

theorem join (h : m.Enrolled servers floor) {a b : Id} (ha : a ∈ servers) (hb : b ∈ servers) :
    (m.join a b).Enrolled servers floor := (h.joinOneWay a hb).joinOneWay b ha

theorem severOneWay (h : m.Enrolled servers floor) (a b : Id) :
    (m.severOneWay a b).Enrolled servers floor := by
  refine h.update fun st _ hst => ?_
  split
  · exact hst
  · exact hst.among (Server.among_closeLink _)

theorem sever (h : m.Enrolled servers floor) (a b : Id) : (m.sever a b).Enrolled servers floor := by
  have hfewer : ({ m with wire := m.wire.filter (fun t => ¬ isBetween a b t) } : Mesh).Enrolled
      servers floor := h.refile rfl (fun _ ht => (List.mem_filter.1 ht).1) fun _ hw => hw
  exact (hfewer.severOneWay a b).severOneWay b a

theorem take (h : m.Enrolled servers floor) {k : Nat} {t : Transit} {m' : Mesh}
    (ht : m.take k = some (t, m')) : t.frame.Names servers ∧ m'.Enrolled servers floor := by
  obtain ⟨wire, hperm, rfl⟩ := exists_wire_of_take ht
  exact ⟨h.wire _ (hperm.mem_iff.1 List.mem_cons_self),
    h.refile rfl (fun _ ht => hperm.mem_iff.1 (List.mem_cons_of_mem _ ht)) fun _ hw => hw⟩

theorem joinEach (h : m.Enrolled servers floor) {a : Id} (ha : a ∈ servers) {peers : List Id}
    (hp : peers ⊆ servers) : (peers.foldl (fun m peer => m.join a peer) m).Enrolled servers floor := by
  induction peers generalizing m with
  | nil => exact h
  | cons peer peers ih =>
    rw [List.cons_subset] at hp
    exact ih (h.join ha hp.1) hp.2

/-- One case for each kind of step at a server. -/
theorem actAt (h : m.Enrolled servers floor) (hs : m.station? id = some st) {s : LocalStep}
    (hp : st.ProperAt servers s) : (m.actAt id st s).1.Enrolled servers floor := by
  have hst := h.stations id st hs
  cases s with
  | command c =>
    have hobeyed : ({ st with server := (st.server.obey c).1 } : Station).server.Enrolled
        servers (floor id) id := hst.among (Server.among_obey hst.self_mem hp)
    exact h.set hobeyed
  | neighbour peer label options =>
    exact h.set ((Station.enrolled_obtain hst label _ _).addNeighbour hp _)
  | client label options =>
    exact h.set ((Station.enrolled_accept hst hp Prod.mk.eta.symm).mono (Nat.le_succ_of_le hst.least))
  | frame label options f =>
    exact (h.set (Station.enrolled_obtain hst label _ _)).arrive id _ hp
  | closed label =>
    simp only [Mesh.actAt]
    split
    · exact h
    · exact h.set (hst.among (Server.among_closeLink _))
  | unhold label =>
    simp only [Mesh.actAt]
    split
    · exact h
    · exact h.set hst
  | dropQueue label =>
    simp only [Mesh.actAt]
    split
    · exact h
    · exact h.set (Station.enrolled_dropQueue hst _)
  | closeLine label options => exact h.set (Station.enrolled_obtain hst label _ _)
  | start peers =>
    exact (h.joinEach hst.member hp).update fun st' _ hst' =>
      hst'.among (Server.among_announce hst'.self_mem)

theorem act (h : m.Enrolled servers floor) {s : Step} (hp : m.Proper servers (.step s)) {m' : Mesh}
    {answer : Answer} {shown : Option Id} (ha : m.act s = some (m', answer, shown)) :
    m'.Enrolled servers floor := by
  cases s with
  | «at» id s =>
    obtain ⟨st, hs, hact⟩ := Option.map_eq_some_iff.1 ha
    cases hact
    exact h.actAt hs (hp st hs)
  | advance ms =>
    cases ha
    exact h.updateAll fun s hid => Server.among_advance hid ms
  | enable enabled =>
    cases ha
    exact h.refile rfl (fun _ ht => ht) fun _ hw => hw
  | pick k =>
    obtain ⟨⟨t, m₁⟩, ht, hact⟩ := Option.map_eq_some_iff.1 ha
    cases hact
    exact (h.take ht).2.deliver (h.take ht).1
  | lose k =>
    obtain ⟨⟨t, m₁⟩, ht, hact⟩ := Option.map_eq_some_iff.1 ha
    cases hact
    exact (h.take ht).2
  | cut a b =>
    cases ha
    exact h.sever a b

theorem move (h : m.Enrolled servers floor) {mv : Move} (hp : m.Proper servers mv) :
    (m.move mv).Enrolled servers floor := by
  refine settle ?_
  cases mv with
  | join a b => exact h.join hp.1 hp.2
  | deliver place =>
    cases ht : m.wire[place]? with
    | none => rwa [effect_deliver_none ht]
    | some t =>
      have hrest : ({ m with wire := m.wire.eraseIdx place } : Mesh).Enrolled servers floor :=
        h.refile rfl (fun _ => List.mem_of_mem_eraseIdx) fun _ hw => hw
      rw [effect_deliver ht]
      exact hrest.deliver (h.wire t (List.mem_of_getElem? ht))
  | step s =>
    simp only [effect]
    split
    · exact h
    next m' rest ha => exact h.act hp ha

/-- Once a client has been accepted, its number is behind. -/
theorem move_client (h : m.Enrolled servers floor) {a : Id} (hs : m.station? a = some st)
    (hk : st.server.minted < Server.clientsPerServer) (label : Option String)
    (options : QueueOptions) : (m.move (.step (.at a (.client label options)))).Enrolled servers
      (Function.update floor a (st.server.minted + 1)) := by
  refine settle ?_
  rw [effect_at hs]
  exact h.setLeast (Station.enrolled_accept (h.stations a st hs) hk Prod.mk.eta.symm)

end Enrolled

end Mesh

end RelayMesh
