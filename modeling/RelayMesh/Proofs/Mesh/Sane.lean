import RelayMesh.Proofs.Mesh.Queues
import RelayMesh.Proofs.Routes.Learning

namespace RelayMesh

namespace Station

/-- The station of server `id` has its connections and its routes in order. -/
structure Wired (id : Id) (st : Station) : Prop where
  identity : st.server.identity = id
  own : st.server.routes.own = id
  /-- A server has no route to itself. -/
  noSelf : st.server.routes.get? id = none
  below : ∀ line ∈ st.lines, line.link < st.nextLink
  links : (st.lines.map (·.link)).Nodup
  apart : ∀ line ∈ st.lines, line.peer ≠ some id
  /-- A server with a connection is one hop away, over that connection. -/
  direct : ∀ line ∈ st.lines, ∀ b, line.peer = some b →
    st.server.routes.get? b = some ⟨.server 1 b, line.link⟩
  /-- Every route to a server leads over a connection to some server. -/
  remote : ∀ d hops next link, st.server.routes.get? d = some ⟨.server hops next, link⟩ →
    0 < hops ∧ ∃ line ∈ st.lines, line.peer ≠ none ∧ line.link = link
  /-- Clients have connections of their own. -/
  clients : ∀ d link, st.server.routes.get? d = some ⟨.client, link⟩ →
    link < st.nextLink ∧ ∀ line ∈ st.lines, line.link = link → line.peer = none

/-- The station with a new connection to a server. -/
def joined (st : Station) (peer : Id) : Station :=
  let (st, link) := st.connect ("s" ++ toString peer) (some peer) defaultCapacity false
  { st with server := st.server.addNeighbour peer link }

/-- The station once a new client has registered with its server over a connection of its own. -/
def attached (st : Station) (label : Option String) (options : QueueOptions) : Station :=
  let (server, identity) := st.server.mintClientId
  let (connected, link) := { st with server }.connect (label.getD (toString identity)) none
    options.capacity options.held
  { connected with server := connected.server.addClient identity link }

variable {id b c : Id} {st st' : Station} {line other : Line} {label : String} {peer : Option Id}
  {capacity : Nat} {held : Bool}

theorem Wired.alike (h : st.Wired id) (ha : st.Alike st') : st'.Wired id where
  identity := ha.identity.trans h.identity
  own := ha.own.trans h.own
  noSelf := (ha.get? id).trans h.noSelf
  below := by rw [ha.lines, ha.nextLink]; exact h.below
  links := by rw [ha.lines]; exact h.links
  apart := by rw [ha.lines]; exact h.apart
  direct := by simp only [ha.lines, ha.get?]; exact h.direct
  remote := by simp only [ha.lines, ha.get?]; exact h.remote
  clients := by simp only [ha.lines, ha.get?, ha.nextLink]; exact h.clients

/-- A connection is known by its number. -/
theorem Wired.eq_of_link (h : st.Wired id) (hl : line ∈ st.lines) (ho : other ∈ st.lines)
    (he : line.link = other.link) : line = other :=
  List.inj_on_of_nodup_map h.links hl ho he

theorem Wired.eq_of_peer (h : st.Wired id) (hl : line ∈ st.lines) (ho : other ∈ st.lines)
    (hb : line.peer = some b) (hb' : other.peer = some b) : line = other := by
  have hsame := (h.direct line hl b hb).symm.trans (h.direct other ho b hb')
  exact h.eq_of_link hl ho (by simpa using hsame)

theorem Wired.lineTo?_iff (h : st.Wired id) :
    st.lineTo? b = some line ↔ line ∈ st.lines ∧ line.peer = some b := by
  unfold lineTo?
  constructor
  · intro hf
    exact ⟨List.mem_of_find?_eq_some hf, by simpa using List.find?_some hf⟩
  · rintro ⟨hl, hpeer⟩
    cases hf : st.lines.find? fun line => line.peer = some b with
    | none => exact absurd hpeer (by simpa using List.find?_eq_none.1 hf line hl)
    | some found =>
      have hfpeer : found.peer = some b := by simpa using List.find?_some hf
      rw [h.eq_of_peer (List.mem_of_find?_eq_some hf) hl hfpeer hpeer]

/-- Over a connection that does not lead to a server, only a client is reached directly. -/
theorem Wired.isClient_of_atLink (h : st.Wired id) {link : LinkId}
    (hlink : ∀ line ∈ st.lines, line.link = link → line.peer = none) {r : Id × Route}
    (hr : st.server.routes.atLink link = some r) : r.2.isClient = true := by
  obtain ⟨hget, hover⟩ := Routes.of_atLink hr
  obtain ⟨d, reach, edge⟩ := r
  cases reach with
  | client => rfl
  | server hops next =>
    obtain ⟨-, line, hl, hpeer, he⟩ := h.remote d hops next edge hget
    exact absurd (hlink line hl (he.trans hover)) hpeer

/-- Over the connection to a server, a server is reached directly, and no client. -/
theorem Wired.atLink_of_peer (h : st.Wired id) (hl : line ∈ st.lines) (hpeer : line.peer = some b) :
    ∃ r, st.server.routes.atLink line.link = some r ∧ r.2.isClient = false ∧
      r.2.link = line.link := by
  cases hr : st.server.routes.atLink line.link with
  | none =>
    have hno := List.find?_eq_none.1 hr (b, ⟨.server 1 b, line.link⟩)
      (st.server.routes.entries.mem_toList_iff.2 (h.direct line hl b hpeer))
    simp [Route.isNeighbour] at hno
  | some r =>
    obtain ⟨hget, hover⟩ := Routes.of_atLink hr
    refine ⟨r, rfl, ?_, hover⟩
    obtain ⟨d, reach, edge⟩ := r
    cases reach with
    | server hops next => rfl
    | client =>
      have hnone := (h.clients d edge hget).2 line hl hover.symm
      rw [hpeer] at hnone
      cases hnone

section Connect

theorem mem_connect : line ∈ (st.connect label peer capacity held).1.lines ↔
    line ∈ st.lines ∨ line = { link := st.nextLink, label, peer, held } := by
  show line ∈ st.lines ++ [_] ↔ _
  rw [List.mem_append, List.mem_singleton]

theorem waiting_addLink (o : Outbox) (link other : LinkId) (capacity : Nat) :
    (o.addLink link capacity).waiting other = if other = link then [] else o.waiting other := by
  unfold Outbox.addLink Outbox.waiting
  rw [SortedMap.get?_insert]
  by_cases h : other = link <;> simp [h]

/-- A frame that waits for a server after a new connection was made waited for it before. -/
theorem queues_of_queues_connect {f : Frame}
    (hq : (st.connect label peer capacity held).1.Queues b f) : st.Queues b f := by
  obtain ⟨line, hl, hpeer, hf⟩ := hq
  have hf' : f ∈ (st.server.outbox.addLink st.nextLink capacity).waiting line.link := hf
  rw [waiting_addLink] at hf'
  split at hf'
  · simp at hf'
  next hne =>
    rcases mem_connect.1 hl with hold | rfl
    · exact ⟨line, hold, hpeer, hf'⟩
    · exact absurd rfl hne

/-- A new connection leaves the queues of the others as they are. -/
theorem Wired.queues_connect (h : st.Wired id) {f : Frame} (hq : st.Queues b f) :
    (st.connect label peer capacity held).1.Queues b f := by
  obtain ⟨line, hl, hpeer, hf⟩ := hq
  refine ⟨line, mem_connect.2 (.inl hl), hpeer, ?_⟩
  show f ∈ (st.server.outbox.addLink st.nextLink capacity).waiting line.link
  rw [waiting_addLink, if_neg (Nat.ne_of_lt (h.below line hl))]
  exact hf

theorem Wired.links_connect (h : st.Wired id) (label : String) (peer : Option Id) (capacity : Nat)
    (held : Bool) : ((st.connect label peer capacity held).1.lines.map (·.link)).Nodup := by
  rw [show (st.connect label peer capacity held).1.lines =
      st.lines ++ [{ link := st.nextLink, label, peer, held }] from rfl,
    List.map_append, List.map_singleton, List.nodup_append]
  refine ⟨h.links, List.nodup_singleton _, ?_⟩
  rintro link hl other ho rfl
  obtain ⟨line, hline, rfl⟩ := List.mem_map.1 hl
  rw [List.mem_singleton] at ho
  exact Nat.lt_irrefl _ (ho ▸ h.below line hline)

theorem Wired.below_connect (h : st.Wired id) (label : String) (peer : Option Id) (capacity : Nat)
    (held : Bool) :
    ∀ line ∈ (st.connect label peer capacity held).1.lines, line.link < st.nextLink + 1 := by
  intro line hl
  rcases mem_connect.1 hl with hold | rfl
  · exact Nat.lt_succ_of_lt (h.below line hold)
  · exact Nat.lt_succ_self _

/-- A new connection that leads to no server. -/
theorem Wired.connect (h : st.Wired id) : (st.connect label none capacity held).1.Wired id := by
  have old : ∀ line ∈ (st.connect label none capacity held).1.lines, line.peer ≠ none →
      line ∈ st.lines := by
    intro line hl hpeer
    rcases mem_connect.1 hl with hold | rfl
    · exact hold
    · exact absurd rfl hpeer
  exact {
    identity := h.identity
    own := h.own
    noSelf := h.noSelf
    below := h.below_connect label none capacity held
    links := h.links_connect label none capacity held
    apart := fun line hl hpeer => h.apart line (old line hl (by simp [hpeer])) hpeer
    direct := fun line hl b hpeer => h.direct line (old line hl (by simp [hpeer])) b hpeer
    remote := fun d hops next link hget => by
      obtain ⟨hpos, line, hl, hline⟩ := h.remote d hops next link hget
      exact ⟨hpos, line, mem_connect.2 (.inl hl), hline⟩
    clients := fun d link hget => by
      obtain ⟨hlt, hno⟩ := h.clients d link hget
      refine ⟨Nat.lt_succ_of_lt hlt, fun line hl he => ?_⟩
      by_contra hpeer
      exact hpeer (hno line (old line hl hpeer) he) }

/-- A new connection without a peer is over no link of a server. -/
theorem Wired.peer_connect (h : st.Wired id) (capacity : Nat) :
    ∀ line ∈ (st.connect label none capacity held).1.lines, line.link = st.nextLink →
      line.peer = none := by
  intro line hl he
  rcases mem_connect.1 hl with hold | rfl
  · exact absurd (h.below line hold) (by rw [he]; exact Nat.lt_irrefl _)
  · rfl

/-- Under a name that is no server's, there is a connection that leads to no server, or a new one is
made. -/
theorem Wired.peer_obtain (h : st.Wired id) (hlabel : ∀ line ∈ st.named? label, line.peer = none) :
    ∀ line ∈ (st.obtain label capacity held).1.lines,
      line.link = (st.obtain label capacity held).2 → line.peer = none := by
  unfold obtain
  split
  next known hnamed =>
    intro line hl he
    rw [h.eq_of_link hl (List.mem_of_find?_eq_some hnamed) he]
    exact hlabel known hnamed
  next => exact h.peer_connect capacity

theorem get?_addClient (s : Server) (c : Id) (link : LinkId) (d : Id) :
    (s.addClient c link).routes.get? d =
      if d = c ∧ c ≠ s.routes.own then some ⟨.client, link⟩ else s.routes.get? d :=
  Routes.get?_set _ _ _ _

/-- A client that is accepted over a connection that leads to no server. -/
theorem Wired.addClient (h : st.Wired id) (hnew : st.server.routes.get? c = none)
    {link : LinkId} (hlink : link < st.nextLink)
    (hpeer : ∀ line ∈ st.lines, line.link = link → line.peer = none) :
    ({ st with server := st.server.addClient c link } : Station).Wired id where
  identity := h.identity
  own := (Routes.own_set _ _ _).trans h.own
  noSelf := by
    rw [get?_addClient, if_neg, h.noSelf]
    rintro ⟨rfl, hne⟩
    exact hne h.own.symm
  below := h.below
  links := h.links
  apart := h.apart
  direct line hl b hb := by
    have hold := h.direct line hl b hb
    rw [get?_addClient, if_neg, hold]
    rintro ⟨rfl, -⟩
    rw [hnew] at hold
    cases hold
  remote d hops next edge hd := by
    rw [get?_addClient] at hd
    split at hd
    · simp at hd
    · exact h.remote d hops next edge hd
  clients d edge hd := by
    rw [get?_addClient] at hd
    split at hd
    · cases hd
      exact ⟨hlink, hpeer⟩
    · exact h.clients d edge hd

theorem get?_joined (st : Station) (peer d : Id) :
    (st.joined peer).server.routes.get? d =
      if d = peer ∧ peer ≠ st.server.routes.own then some ⟨.server 1 peer, st.nextLink⟩
      else st.server.routes.get? d := Routes.get?_set _ _ _ _

theorem mem_joined : line ∈ (st.joined b).lines ↔
    line ∈ st.lines ∨ line = { link := st.nextLink, label := "s" ++ toString b, peer := some b } :=
  List.mem_append.trans (or_congr_right List.mem_singleton)

theorem Wired.joined (h : st.Wired id) (hne : b ≠ id)
    (hno : ∀ line ∈ st.lines, line.peer ≠ some b) : (st.joined b).Wired id where
  identity := h.identity
  own := (Routes.own_set _ _ _).trans h.own
  noSelf := by
    rw [get?_joined, if_neg, h.noSelf]
    rintro ⟨rfl, -⟩
    exact hne rfl
  below := h.below_connect _ _ defaultCapacity _
  links := h.links_connect _ _ defaultCapacity _
  apart line hl hpeer := by
    rcases mem_joined.1 hl with hold | rfl
    · exact h.apart line hold hpeer
    · exact hne (by simpa using hpeer)
  direct line hl c hpeer := by
    rw [get?_joined]
    rcases mem_joined.1 hl with hold | rfl
    · rw [if_neg, h.direct line hold c hpeer]
      rintro ⟨rfl, -⟩
      exact hno line hold hpeer
    · obtain rfl : b = c := by simpa using hpeer
      rw [if_pos ⟨rfl, by rw [h.own]; exact hne⟩]
  remote d hops next link hget := by
    rw [get?_joined] at hget
    split at hget
    · cases hget
      exact ⟨Nat.one_pos, _, mem_joined.2 (.inr rfl), by simp, rfl⟩
    · obtain ⟨hpos, line, hl, hline⟩ := h.remote d hops next link hget
      exact ⟨hpos, line, mem_joined.2 (.inl hl), hline⟩
  clients d link hget := by
    rw [get?_joined] at hget
    split at hget
    · cases hget
    · obtain ⟨hlt, hpeer⟩ := h.clients d link hget
      refine ⟨Nat.lt_succ_of_lt hlt, fun line hl he => ?_⟩
      rcases mem_joined.1 hl with hold | rfl
      · exact hpeer line hold he
      · exact absurd hlt (by rw [← he]; exact Nat.lt_irrefl _)

/-- The new neighbour is a hop away, and no other route has changed. -/
theorem Wired.within_joined (h : st.Wired id) {d : Id} {k : Nat}
    (hw : st.server.routes.Within d k) : (st.joined b).server.routes.Within d k := by
  obtain ⟨hops, next, link, hget, hle⟩ := hw
  by_cases hd : d = b ∧ b ≠ st.server.routes.own
  · have hpos := (h.remote d hops next link hget).1
    exact ⟨1, b, st.nextLink, by rw [get?_joined, if_pos hd], by omega⟩
  · exact ⟨hops, next, link, by rw [get?_joined, if_neg hd, hget], hle⟩

end Connect

/-- The station once its server has learned from a path that has come over a connection. -/
def taught (st : Station) (path : List Id) (link : LinkId) : Station :=
  { st with server := { st.server with routes := (st.server.routes.learn path link).1 } }

/-- A route to a neighbour is never replaced, because there is no shorter one. -/
theorem Wired.taught (h : st.Wired id) (hl : line ∈ st.lines) (hpeer : line.peer ≠ none)
    (path : List Id) : (st.taught path line.link).Wired id where
  identity := h.identity
  own := (Routes.own_learn _ _ _).trans h.own
  noSelf := by
    rcases Routes.get?_learn st.server.routes path line.link id with hsame | ⟨hne, -⟩
    · exact hsame.trans h.noSelf
    · exact absurd h.own.symm hne
  below := h.below
  links := h.links
  apart := h.apart
  direct other ho c hc := by
    have hold := h.direct other ho c hc
    rcases Routes.get?_learn st.server.routes path line.link c with
      hsame | ⟨-, -, next, i, -, -, hlong, -⟩
    · exact hsame.trans hold
    · refine absurd ⟨1, c, other.link, hold, ?_⟩ hlong
      exact Nat.le_min.2 ⟨Nat.le_add_left 1 i, by decide⟩
  remote d hops next link hd := by
    rcases Routes.get?_learn st.server.routes path line.link d with
      hsame | ⟨-, -, via, i, -, -, -, hnew⟩
    · exact h.remote d hops next link (hsame ▸ hd)
    · have he := hnew.symm.trans hd
      simp only [Option.some.injEq, Route.mk.injEq, Reach.server.injEq] at he
      obtain ⟨⟨rfl, -⟩, rfl⟩ := he
      exact ⟨Nat.lt_min.2 ⟨Nat.succ_pos i, by decide⟩, line, hl, hpeer, rfl⟩
  clients d link hd := by
    rcases Routes.get?_learn st.server.routes path line.link d with
      hsame | ⟨-, -, via, i, -, -, -, hnew⟩
    · exact h.clients d link (hsame ▸ hd)
    · have he := hnew.symm.trans hd
      simp at he

end Station

namespace Mesh

variable {m m' m'' : Mesh} {id a b c d : Id} {k : Nat} {st st' : Station}

theorem linked_iff : m.Linked a b ↔
    ∃ st, m.station? a = some st ∧ ∃ line ∈ st.lines, line.peer = some b := by
  unfold Linked line? Station.lineTo?
  cases m.station? a with
  | none => simp
  | some st => simp

theorem graph_adj : m.graph.Adj a b ↔ a ≠ b ∧ (m.Linked a b ∨ m.Linked b a) :=
  SimpleGraph.fromRel_adj m.Linked a b

theorem actAt_client (m : Mesh) {label : Option String} {options : QueueOptions}
    (hlabel : st.named? (label.getD (toString st.server.mintClientId.2)) = none) :
    (m.actAt id st (.client label options)).1 = m.set id (st.attached label options) := by
  have hnone : ({ st with server := st.server.mintClientId.1 } : Station).named?
      (label.getD (toString st.server.mintClientId.2)) = none := hlabel
  simp only [actAt, Station.obtain, hnone]
  rfl

/-- The server `a` knows a route to `d` of at most `k` hops. -/
def Knows (m : Mesh) (a d : Id) (k : Nat) : Prop :=
  ∃ st, m.station? a = some st ∧ st.server.routes.Within d k

theorem Knows.mono {l : Nat} (h : m.Knows a d k) (hk : k ≤ l) : m.Knows a d l := by
  obtain ⟨st, hs, hw⟩ := h
  exact ⟨st, hs, hw.mono hk⟩

/-- The overlay has grown: no connection has gone, and no route has got longer. -/
structure Extends (m m' : Mesh) : Prop where
  linked : ∀ a b, m.Linked a b → m'.Linked a b
  knows : ∀ a d k, m.Knows a d k → m'.Knows a d k

theorem extends_refl (m : Mesh) : m.Extends m := ⟨fun _ _ hl => hl, fun _ _ _ hk => hk⟩

theorem Extends.trans (h : m.Extends m') (h' : m'.Extends m'') : m.Extends m'' :=
  ⟨fun a b hl => h'.linked a b (h.linked a b hl), fun a d k hk => h'.knows a d k (h.knows a d k hk)⟩

theorem Extends.graph (h : m.Extends m') : m.graph ≤ m'.graph := by
  intro a b hadj
  rw [graph_adj] at hadj ⊢
  exact ⟨hadj.1, hadj.2.imp (h.linked a b) (h.linked b a)⟩

theorem Alike.extended (h : m.Alike m') : m.Extends m' := by
  constructor
  · intro a b hl
    obtain ⟨st, hs, hline⟩ := linked_iff.1 hl
    obtain ⟨st', hs', ha⟩ := h.forth a st hs
    exact linked_iff.2 ⟨st', hs', ha.lines.symm ▸ hline⟩
  · rintro a d k ⟨st, hs, hops, next, link, hget, hle⟩
    obtain ⟨st', hs', ha⟩ := h.forth a st hs
    exact ⟨st', hs', hops, next, link, (ha.get? d).trans hget, hle⟩

theorem extends_of_stations (h : m'.stations = m.stations) : m.Extends m' :=
  (alike_of_stations h).extended

theorem Alike.symm (h : m.Alike m') : m'.Alike m := by
  constructor
  · intro id st' hs'
    obtain ⟨st, hs, ha⟩ := h.back id st' hs'
    exact ⟨st, hs, ha.symm⟩
  · intro id st hs
    obtain ⟨st', hs', ha⟩ := h.forth id st hs
    exact ⟨st', hs', ha.symm⟩

theorem Alike.isSome (h : m.Alike m') (hd : (m.station? d).isSome) : (m'.station? d).isSome := by
  obtain ⟨st, hs⟩ := Option.isSome_iff_exists.1 hd
  obtain ⟨st', hs', -⟩ := h.forth d st hs
  rw [hs']
  rfl

structure Sane (m : Mesh) : Prop where
  wired : ∀ id st, m.station? id = some st → st.Wired id
  symm : ∀ a b, m.Linked a b → m.Linked b a
  nobody : ∀ id st d, m.station? id = some st → (m.station? d).isSome →
    ¬ st.server.routes.IsClient d

theorem Sane.orderly (h : m.Sane) : m.Orderly := fun id st hs => (h.wired id st hs).links

theorem Sane.ne_of_linked (h : m.Sane) (hl : m.Linked a b) : a ≠ b := by
  rintro rfl
  obtain ⟨st, hs, line, hline, hpeer⟩ := linked_iff.1 hl
  exact (h.wired a st hs).apart line hline hpeer

theorem Sane.adj_iff (h : m.Sane) : m.graph.Adj a b ↔ m.Linked a b := by
  rw [graph_adj]
  constructor
  · rintro ⟨-, hl | hl⟩
    · exact hl
    · exact h.symm b a hl
  · intro hl
    exact ⟨h.ne_of_linked hl, .inl hl⟩

theorem Sane.isSome_of_linked (h : m.Sane) (hl : m.Linked a b) : (m.station? b).isSome := by
  obtain ⟨st, hs, -⟩ := linked_iff.1 (h.symm a b hl)
  rw [hs]
  rfl

/-- Connections lead from servers to servers only. -/
theorem Sane.isSome_of_walk (h : m.Sane) (ha : (m.station? a).isSome) (w : m.graph.Walk a b) :
    (m.station? b).isSome := by
  induction w with
  | nil => exact ha
  | cons hadj _ ih => exact ih (h.isSome_of_linked (h.adj_iff.1 hadj))

/-- The overlay is still in order, and it has only grown. -/
structure Grown (m m' : Mesh) : Prop where
  sane : m'.Sane
  extended : m.Extends m'

theorem Grown.trans (h : m.Grown m') (h' : m'.Grown m'') : m.Grown m'' :=
  ⟨h'.sane, h.extended.trans h'.extended⟩

theorem Sane.alike (h : m.Sane) (ha : m.Alike m') : m.Grown m' := by
  refine ⟨⟨fun id st' hs' => ?_, fun a b hl => ?_, fun id st' d hs' hd => ?_⟩, ha.extended⟩
  · obtain ⟨st, hs, hst⟩ := ha.back id st' hs'
    exact (h.wired id st hs).alike hst
  · exact ha.extended.linked b a (h.symm a b (ha.symm.extended.linked a b hl))
  · obtain ⟨st, hs, hst⟩ := ha.back id st' hs'
    rintro ⟨link, hget⟩
    exact h.nobody id st d hs (ha.symm.isSome hd) ⟨link, (hst.get? d).symm.trans hget⟩

/-- One station has changed: it has the same neighbours, and no route of it has got longer. -/
theorem Sane.change (h : m.Sane) (hs : m.station? id = some st) (hwired : st'.Wired id)
    (hpeers : ∀ b, (∃ line ∈ st'.lines, line.peer = some b) ↔ ∃ line ∈ st.lines, line.peer = some b)
    (hwithin : ∀ d k, st.server.routes.Within d k → st'.server.routes.Within d k)
    (hnobody : ∀ d, (m.station? d).isSome → ¬ st'.server.routes.IsClient d) :
    m.Grown (m.set id st') := by
  have hlinked : ∀ a b, (m.set id st').Linked a b ↔ m.Linked a b := by
    intro a b
    rw [linked_iff, linked_iff, station?_set]
    by_cases ha : a = id
    · subst ha
      simp only [if_true, Option.some.injEq, exists_eq_left', hs]
      exact hpeers b
    · simp only [if_neg ha]
  have hsome : ∀ d, ((m.set id st').station? d).isSome ↔ (m.station? d).isSome := by
    intro d
    rw [station?_set]
    by_cases hd : d = id
    · simp [hd, hs]
    · simp [hd]
  refine ⟨⟨fun a new ha => ?_, fun a b hl => ?_, fun a new d ha hd => ?_⟩, fun a b hl => ?_,
    fun a d k hk => ?_⟩
  · rw [station?_set] at ha
    split at ha
    next he =>
      cases ha
      rw [he]
      exact hwired
    next => exact h.wired a new ha
  · exact (hlinked b a).2 (h.symm a b ((hlinked a b).1 hl))
  · rw [hsome] at hd
    rw [station?_set] at ha
    split at ha
    · cases ha
      exact hnobody d hd
    · exact h.nobody a new d ha hd
  · exact (hlinked a b).2 hl
  · obtain ⟨old, ho, hw⟩ := hk
    by_cases ha : a = id
    · subst ha
      obtain rfl : st = old := Option.some.inj (hs.symm.trans ho)
      exact ⟨st', station?_set_self, hwithin d k hw⟩
    · exact ⟨old, (station?_set_ne ha).trans ho, hw⟩

/-- A server does something and keeps its routes. -/
theorem Sane.act (h : m.Sane) (hs : m.station? id = some st) {came : Option Message} {s : Server}
    (hsends : st.server.Sends came s) : m.Grown (m.set id { st with server := s }) :=
  h.alike (alike_set hs (Station.alike_of_sends hsends))

theorem Sane.shutdown (h : m.Sane) (hs : m.station? id = some st) :
    m.Grown (m.set id { st with server := st.server.shutdown }) := by
  have hw := h.wired id st hs
  exact h.change hs
    ⟨hw.identity, hw.own, hw.noSelf, hw.below, hw.links, hw.apart, hw.direct, hw.remote, hw.clients⟩
    (fun _ => Iff.rfl) (fun _ _ hw => hw) fun d => h.nobody id st d hs

/-- A server has got a connection to something that is no server. -/
theorem Sane.connect (h : m.Sane) (hs : m.station? id = some st) (label : String) (capacity : Nat)
    (held : Bool) : m.Grown (m.set id (st.connect label none capacity held).1) := by
  refine h.change hs (h.wired id st hs).connect (fun b => ⟨?_, ?_⟩) (fun _ _ hw => hw)
    fun d => h.nobody id st d hs
  · rintro ⟨line, hl, hpeer⟩
    rcases Station.mem_connect.1 hl with hold | rfl
    · exact ⟨line, hold, hpeer⟩
    · cases hpeer
  · rintro ⟨line, hl, hpeer⟩
    exact ⟨line, Station.mem_connect.2 (.inl hl), hpeer⟩

/-- A client has registered over a connection that leads to no server. -/
theorem Sane.addClient (h : m.Sane) (hs : m.station? id = some st) (hc : m.station? c = none)
    (hnew : st.server.routes.get? c = none) {link : LinkId} (hlink : link < st.nextLink)
    (hpeer : ∀ line ∈ st.lines, line.link = link → line.peer = none) :
    m.Grown (m.set id { st with server := st.server.addClient c link }) := by
  refine h.change hs ((h.wired id st hs).addClient hnew hlink hpeer) (fun _ => Iff.rfl) ?_ ?_
  · rintro d k ⟨hops, next, edge, hd, hle⟩
    refine ⟨hops, next, edge, ?_, hle⟩
    rw [Station.get?_addClient, if_neg, hd]
    rintro ⟨rfl, -⟩
    rw [hnew] at hd
    cases hd
  · rintro d hd ⟨edge, hover⟩
    rw [Station.get?_addClient] at hover
    split at hover
    next he =>
      rw [he.1, hc] at hd
      cases hd
    next => exact h.nobody id st d hs hd ⟨edge, hover⟩

/-- A server has learned from a path that has come from a neighbour. -/
theorem Sane.learn (h : m.Sane) (hs : m.station? id = some st) {line : Line} (hl : line ∈ st.lines)
    (hpeer : line.peer ≠ none) (path : List Id) : m.Grown (m.set id (st.taught path line.link)) := by
  refine h.change hs ((h.wired id st hs).taught hl hpeer path) (fun _ => Iff.rfl)
    (fun d k hw => hw.learn path line.link) fun d hd hc => ?_
  exact h.nobody id st d hs hd (Routes.isClient_learn.1 hc)

section Join

theorem joinOneWay_eq (hno : ∀ line ∈ st.lines, line.peer ≠ some b) (hs : m.station? a = some st) :
    m.joinOneWay a b = m.set a (st.joined b) := by
  have hnone : st.lineTo? b = none :=
    List.find?_eq_none.2 fun line hl => by simpa using hno line hl
  simp only [joinOneWay, update, hs, Station.forgetPeer, hnone]
  rfl

/-- Two servers that have no connection with each other. -/
structure Strangers (m : Mesh) (a b : Id) (sa sb : Station) : Prop where
  ne : a ≠ b
  left : m.station? a = some sa
  right : m.station? b = some sb
  leftFree : ∀ line ∈ sa.lines, line.peer ≠ some b
  rightFree : ∀ line ∈ sb.lines, line.peer ≠ some a

variable {sa sb : Station}

theorem Sane.strangers (h : m.Sane) (hne : a ≠ b) (ha : m.station? a = some sa)
    (hb : m.station? b = some sb) (hno : ¬ m.Linked a b) : m.Strangers a b sa sb :=
  ⟨hne, ha, hb, fun line hl hpeer => hno (linked_iff.2 ⟨sa, ha, line, hl, hpeer⟩),
    fun line hl hpeer => hno (h.symm b a (linked_iff.2 ⟨sb, hb, line, hl, hpeer⟩))⟩

theorem Strangers.station?_join (h : m.Strangers a b sa sb) (c : Id) :
    (m.join a b).station? c =
      if c = a then some (sa.joined b) else if c = b then some (sb.joined a) else m.station? c := by
  have hb' : (m.set a (sa.joined b)).station? b = some sb := by
    rw [station?_set_ne h.ne.symm, h.right]
  rw [join, joinOneWay_eq h.leftFree h.left, joinOneWay_eq h.rightFree hb', station?_set,
    station?_set]
  by_cases hc : c = a
  · simp [hc, h.ne]
  · simp [hc]

/-- A station after a join is one of the two, with a connection to the other, or as before. -/
theorem Strangers.cases (h : m.Strangers a b sa sb) (hc : (m.join a b).station? c = some st') :
    (∃ st d, m.station? c = some st ∧ st' = st.joined d ∧ d ≠ c ∧
      ∀ line ∈ st.lines, line.peer ≠ some d) ∨ m.station? c = some st' := by
  rw [h.station?_join] at hc
  split at hc
  next he =>
    rw [he]
    exact .inl ⟨sa, b, h.left, (Option.some.inj hc).symm, h.ne.symm, h.leftFree⟩
  next =>
    split at hc
    next he =>
      rw [he]
      exact .inl ⟨sb, a, h.right, (Option.some.inj hc).symm, h.ne, h.rightFree⟩
    next => exact .inr hc

theorem Strangers.isSome (h : m.Strangers a b sa sb) :
    ((m.join a b).station? c).isSome ↔ (m.station? c).isSome := by
  rw [h.station?_join]
  by_cases hca : c = a
  · simp [hca, h.left]
  · by_cases hcb : c = b
    · simp [hcb, h.ne.symm, h.right]
    · simp [hca, hcb]

theorem Strangers.linked_join (h : m.Strangers a b sa sb) :
    (m.join a b).Linked c d ↔ m.Linked c d ∨ c = a ∧ d = b ∨ c = b ∧ d = a := by
  have joined : ∀ (st : Station) (e : Id), (∃ line ∈ (st.joined e).lines, line.peer = some d) ↔
      (∃ line ∈ st.lines, line.peer = some d) ∨ d = e := by
    intro st e
    constructor
    · rintro ⟨line, hl, hpeer⟩
      rcases Station.mem_joined.1 hl with hold | rfl
      · exact .inl ⟨line, hold, hpeer⟩
      · exact .inr (by simpa using hpeer.symm)
    · rintro (⟨line, hl, hpeer⟩ | rfl)
      · exact ⟨line, Station.mem_joined.2 (.inl hl), hpeer⟩
      · exact ⟨_, Station.mem_joined.2 (.inr rfl), rfl⟩
  rw [linked_iff, linked_iff, h.station?_join]
  by_cases hca : c = a
  · subst hca
    simp only [if_true, Option.some.injEq, exists_eq_left', joined, h.left, true_and, h.ne,
      false_and, or_false]
  · by_cases hcb : c = b
    · subst hcb
      simp only [hca, if_false, if_true, Option.some.injEq, exists_eq_left', joined, h.right,
        true_and, false_and, false_or]
    · simp only [hca, hcb, if_false, false_and, or_false]

/-- Once two servers have got a connection, each of them is the other's neighbour. -/
theorem Sane.join (h : m.Sane) (hab : m.Strangers a b sa sb) : m.Grown (m.join a b) := by
  refine ⟨⟨fun c st' hc => ?_, fun c d hl => ?_, fun c st' d hc hd => ?_⟩, fun c d hl => ?_,
    fun c d k hk => ?_⟩
  · rcases hab.cases hc with ⟨st, d, hs, rfl, hne, hfree⟩ | hs
    · exact (h.wired c st hs).joined hne hfree
    · exact h.wired c st' hs
  · rcases hab.linked_join.1 hl with hold | ⟨rfl, rfl⟩ | ⟨rfl, rfl⟩
    · exact hab.linked_join.2 (.inl (h.symm c d hold))
    · exact hab.linked_join.2 (.inr (.inr ⟨rfl, rfl⟩))
    · exact hab.linked_join.2 (.inr (.inl ⟨rfl, rfl⟩))
  · rw [hab.isSome] at hd
    rintro ⟨edge, hover⟩
    rcases hab.cases hc with ⟨st, e, hs, rfl, -, -⟩ | hs
    · rw [Station.get?_joined] at hover
      split at hover
      · cases hover
      · exact h.nobody c st d hs hd ⟨edge, hover⟩
    · exact h.nobody c st' d hs hd ⟨edge, hover⟩
  · exact hab.linked_join.2 (.inl hl)
  · obtain ⟨st, hs, hw⟩ := hk
    unfold Knows
    rw [hab.station?_join]
    by_cases hca : c = a
    · obtain rfl : sa = st := Option.some.inj (hab.left.symm.trans (hca ▸ hs))
      exact ⟨_, if_pos hca, (h.wired a sa hab.left).within_joined hw⟩
    · by_cases hcb : c = b
      · obtain rfl : sb = st := Option.some.inj (hab.right.symm.trans (hcb ▸ hs))
        exact ⟨_, by rw [if_neg hca, if_pos hcb], (h.wired b sb hab.right).within_joined hw⟩
      · exact ⟨st, by rw [if_neg hca, if_neg hcb, hs], hw⟩

/-- A new connection has no frames on it yet. -/
theorem Strangers.pending_of_join (h : m.Strangers a b sa sb) {t : Transit}
    (ht : (m.join a b).Pending t) : m.Pending t := by
  rcases ht with hwire | ⟨st', hs', hq⟩
  · exact .inl (by simpa [Mesh.join, joinOneWay] using hwire)
  · rcases h.cases hs' with ⟨st, d, hs, rfl, -, -⟩ | hs
    · exact .inr ⟨st, hs, Station.queues_of_queues_connect hq⟩
    · exact .inr ⟨st', hs, hq⟩

end Join

end Mesh

end RelayMesh
