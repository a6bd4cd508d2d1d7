import RelayMesh.Proofs.Mesh.Trails
import RelayMesh.Proofs.Server.Steps

namespace RelayMesh

namespace Mesh

/-- Every route to a server leads over the connection to its next hop, from which there is a way to
the server, and every message on its way has left a trail. -/
structure Sound (m : Mesh) : Prop extends m.Sane where
  routes : ∀ id st d hops next link, m.station? id = some st →
    st.server.routes.get? d = some ⟨.server hops next, link⟩ →
    (∃ line ∈ st.lines, line.peer = some next ∧ line.link = link) ∧
      ∃ k, hops = k + 1 ∧ m.Way next d k
  pending : ∀ t, m.Pending t → m.Traced t
  waiting : ∀ w ∈ m.waiting, m.Ready w.interceptor.owner w.msg

variable {m m' : Mesh} {ok : Transit → Prop} {id a b c : Id} {st : Station}

/-- Routes and connections are as they were. -/
def KeepsRoutes (m m' : Mesh) : Prop :=
  ∀ id st', m'.station? id = some st' → ∃ st, m.station? id = some st ∧
    (∀ line ∈ st.lines, line ∈ st'.lines) ∧
      ∀ d hops next link, st'.server.routes.get? d = some ⟨.server hops next, link⟩ →
        st.server.routes.get? d = some ⟨.server hops next, link⟩

theorem Alike.keepsRoutes (h : m.Alike m') : m.KeepsRoutes m' := by
  intro id st' hs'
  obtain ⟨st, hs, ha⟩ := h.back id st' hs'
  exact ⟨st, hs, fun line hl => ha.lines.symm ▸ hl, fun d _ _ _ hget => (ha.get? d).symm.trans hget⟩

/-- The one station that changes keeps its routes. -/
theorem keepsRoutes_set {st' : Station} (hs : m.station? id = some st)
    (hl : ∀ line ∈ st.lines, line ∈ st'.lines)
    (hr : ∀ d hops next link, st'.server.routes.get? d = some ⟨.server hops next, link⟩ →
      st.server.routes.get? d = some ⟨.server hops next, link⟩) :
    m.KeepsRoutes (m.set id st') := by
  intro other new ho
  by_cases h : other = id
  · subst h
    obtain rfl : st' = new := Option.some.inj (station?_set_self.symm.trans ho)
    exact ⟨st, hs, hl, hr⟩
  · exact ⟨new, (station?_set_ne h).symm.trans ho, fun _ hl => hl, fun _ _ _ _ hr => hr⟩

/-- The one station that changes gets no frame to send. -/
theorem pending_of_pending_set {st' : Station} (hs : m.station? id = some st) {t : Transit}
    (ht : (m.set id st').Pending t) (hq : ∀ b f, st'.Queues b f → st.Queues b f) :
    m.Pending t := by
  rcases ht with hwire | ⟨new, hnew, hqueues⟩
  · exact .inl hwire
  · rw [station?_set] at hnew
    split at hnew
    next he =>
      cases hnew
      exact .inr ⟨st, he ▸ hs, hq _ _ hqueues⟩
    next => exact .inr ⟨new, hnew, hqueues⟩

theorem Sound.keep (h : m.Sound) (hg : m.Grown m') (hr : m.KeepsRoutes m')
    (hp : ∀ t, m'.Pending t → m.Traced t)
    (hw : ∀ w ∈ m'.waiting, m.Ready w.interceptor.owner w.msg) : m'.Sound where
  toSane := hg.sane
  routes id st' d hops next link hs' hget := by
    obtain ⟨st, hs, hlines, hroutes⟩ := hr id st' hs'
    obtain ⟨⟨line, hl, hline⟩, k, hk, hway⟩ :=
      h.routes id st d hops next link hs (hroutes d hops next link hget)
    exact ⟨⟨line, hlines line hl, hline⟩, k, hk, hway.mono hg.extended⟩
  pending t ht := (hp t ht).mono hg.extended
  waiting w hwm := (hw w hwm).mono hg.extended

/-- A server sends while it handles what it may send on. -/
theorem Sound.posts (h : m.Sound) (hp : Posts m.Ready m m')
    (hw : ∀ w ∈ m'.waiting, m.Ready w.interceptor.owner w.msg) : m'.Sound := by
  refine h.keep (h.toSane.alike hp.alike) hp.alike.keepsRoutes (fun t ht => ?_) hw
  rcases hp.pending ht with hold | ⟨st, line, came, hs, hl, hpeer, hready, hwrites⟩
  · exact h.pending t hold
  · have hwired := h.wired _ st hs
    rcases hwrites with ⟨c, hc⟩ | ⟨msg, hstems, hcarries⟩
    · have hnone := (hwired.clients c line.link hc).2 line hl rfl
      rw [hpeer] at hnone
      cases hnone
    · rw [hwired.identity] at hcarries
      exact ⟨_, hcarries, h.adj_iff.2 (linked_iff.2 ⟨st, hs, line, hl, hpeer⟩),
        trail_of_stems hstems hready⟩

/-- Only messages that are kept back, and messages on the wire, have changed. -/
theorem Sound.refile (h : m.Sound) (hs : m'.stations = m.stations) (hwire : ∀ t ∈ m'.wire, t ∈ m.wire)
    (hw : ∀ w ∈ m'.waiting, m.Ready w.interceptor.owner w.msg) : m'.Sound := by
  have halike := alike_of_stations hs
  have hstation : ∀ id, m'.station? id = m.station? id := fun id => by unfold station?; rw [hs]
  refine h.keep (h.toSane.alike halike) halike.keepsRoutes (fun t ht => h.pending t ?_) hw
  rcases ht with ht | ⟨st, hs', hq⟩
  · exact .inl (hwire t ht)
  · exact .inr ⟨st, hstation _ ▸ hs', hq⟩

/-- A server learns from a message that has left a trail, and stands on it as a neighbour. -/
theorem Sound.learn (h : m.Sound) (hs : m.station? b = some st) {line : Line} (hl : line ∈ st.lines)
    (hpeer : line.peer = some a) {path : List Id} (htrail : m.Trail a path)
    (hshort : path.length < Routes.maxHops) :
    (m.set b (st.taught path line.link)).Sound ∧
      ∀ i d, path.reverse[i]? = some d → d ≠ b →
        (m.set b (st.taught path line.link)).Knows b d (i + 1) := by
  have hwired := h.wired b st hs
  have hlinked : m.Linked b a := linked_iff.2 ⟨st, hs, line, hl, hpeer⟩
  have hgrown := h.toSane.learn hs hl (by simp [hpeer]) path
  refine ⟨⟨hgrown.sane, fun c st' d hops next link hc hget => ?_, fun t ht => ?_, fun w hw => ?_⟩,
    fun i d hi hne => ⟨_, station?_set_self, ?_⟩⟩
  · rw [station?_set] at hc
    split at hc
    · cases hc
      rcases Routes.get?_learn st.server.routes path line.link d with
        hsame | ⟨-, -, via, i, hlast, hi, -, hnew⟩
      · obtain ⟨hline, k, hk, hway⟩ := h.routes b st d hops next link hs (hsame ▸ hget)
        exact ⟨hline, k, hk, hway.mono hgrown.extended⟩
      · obtain rfl : via = a := Option.some.inj (hlast.symm.trans htrail.last)
        have hlt := Routes.lt_length_of_place hi
        have he := hnew.symm.trans hget
        rw [Nat.min_eq_left (by omega)] at he
        simp only [Option.some.injEq, Route.mk.injEq, Reach.server.injEq] at he
        obtain ⟨⟨rfl, rfl⟩, rfl⟩ := he
        exact ⟨⟨line, hl, hpeer, rfl⟩, i, rfl, (htrail.ways i d hi).mono hgrown.extended⟩
    · obtain ⟨hline, k, hk, hway⟩ := h.routes c st' d hops next link hc hget
      exact ⟨hline, k, hk, hway.mono hgrown.extended⟩
  · exact (h.pending t (pending_of_pending_set hs ht fun _ _ hq => hq)).mono hgrown.extended
  · exact (h.waiting w hw).mono hgrown.extended
  · obtain ⟨w, -⟩ := (htrail.ways i d hi).walk
    have hserver : (m.station? d).isSome :=
      h.isSome_of_walk (h.isSome_of_linked hlinked) w
    refine Routes.within_learn htrail.last ?_ hi (hwired.own.symm ▸ hne) (h.nobody b st d hs hserver) _
    rw [hwired.own]
    exact (h.ne_of_linked hlinked).symm

/-- A server that handles a message that has left a trail learns from it, and may send it on. -/
theorem Sound.handle (h : m.Sound) {t : Transit} (ht : m.Traced t) (hroom : HasRoom t) {line : Line}
    {msg : Message} (hh : m.Handles t st line msg) :
    (m.set t.target (st.taught msg.path line.link)).Sound ∧
      (m.set t.target (st.taught msg.path line.link)).Ready t.target msg := by
  obtain ⟨written, hcarries, hadj, htrail⟩ := ht
  obtain ⟨-, hpath, -, -⟩ := hcarries.header hh.read
  have hshort := hcarries.length_path_lt htrail.count
  rw [← hpath] at htrail hshort
  obtain ⟨hlearned, hknows⟩ := h.learn hh.station hh.mem hh.peer htrail hshort
  have hextended := (hh.grown h.toSane).1.extended
  have hlimit := hroom msg hh.read
  exact ⟨hlearned, (htrail.mono hextended).extend (hextended.graph hadj.symm)
    (Nat.lt_of_lt_of_le hlimit (visitLimit_le _)) hknows, hlimit⟩

/-- A frame comes from the neighbour that has sent it. -/
theorem Sound.deliver (h : m.Sound) {t : Transit} (ht : m.Traced t) (hroom : HasRoom t) :
    (m.deliver t).Sound := by
  rcases h.toSane.deliver_cases t with hsame | ⟨st, line, msg, hh⟩
  · rwa [hsame]
  · obtain ⟨hlearned, hready⟩ := h.handle ht hroom hh
    have hself : (m.set t.target (st.taught msg.path line.link)).station? t.target =
      some (st.taught msg.path line.link) := station?_set_self
    have hsends := st.sends_taught m.hooks t.frame.type msg line.link
    have hposts := posts_set (m.set t.target (st.taught msg.path line.link)).Ready
      hself ((st.taught msg.path line.link).posts_of_sends (by rintro _ ⟨⟩; exact hready) hsends)
    have hacted := hlearned.posts hposts hlearned.waiting
    have halike := hposts.alike
    rw [set_set] at hacted halike
    rw [hh.deliver h.toSane]
    refine hacted.refile rfl (fun _ ht => ht) fun w hw => ?_
    rcases List.mem_append.1 hw with hold | hkept
    · exact hacted.waiting w hold
    · obtain ⟨hmsg, howner⟩ := Server.withheld_dispatch (Option.mem_toList.1 hkept)
      rw [hmsg, howner, Server.identity_learnRoutes, (h.wired _ st hh.station).identity]
      exact hready.mono halike.extended

/-- Every turn keeps routes and paths in order, if each frame that arrives leaves room. -/
theorem Sound.turn (h : m.Sound) (ht : Turn HasRoom m m') : m'.Sound := by
  have hgrown := h.toSane.turn ht
  cases ht with
  | send hp hw _ =>
    have hready : Posts m.Ready m m' := ⟨hp.wire, fun id st hs => by
      obtain ⟨st', hs', ⟨came, hno, hsends⟩, hl, hn⟩ := hp.forth id st hs
      exact ⟨st', hs', ⟨came, fun msg hm => (hno msg hm).elim, hsends⟩, hl, hn⟩,
      fun id st' hs' => by
        obtain ⟨st, hs, ⟨came, hno, hsends⟩, hl, hn⟩ := hp.back id st' hs'
        exact ⟨st, hs, ⟨came, fun msg hm => (hno msg hm).elim, hsends⟩, hl, hn⟩⟩
    exact h.posts hready (by rw [hw]; exact h.waiting)
  | collect hc =>
    exact h.keep hgrown hc.alike.keepsRoutes (fun t ht => h.pending t ((hc.pending t).1 ht))
      (by rw [hc.waiting]; exact h.waiting)
  | shutdown hs =>
    exact h.keep hgrown (keepsRoutes_set hs (fun _ hl => hl) fun _ _ _ _ hr => hr)
      (fun t ht => h.pending t (pending_of_pending_set hs ht fun _ _ hq => hq)) h.waiting
  | connect hs label capacity held =>
    exact h.keep hgrown
      (keepsRoutes_set hs (fun _ hl => Station.mem_connect.2 (.inl hl)) fun _ _ _ _ hr => hr)
      (fun t ht => h.pending t (pending_of_pending_set hs ht
        fun _ _ => Station.queues_of_queues_connect)) h.waiting
  | client hs hc hnew hlink hpeer =>
    refine h.keep hgrown (keepsRoutes_set hs (fun _ hl => hl) fun d hops next edge hget => ?_)
      (fun t ht => h.pending t (pending_of_pending_set hs ht fun _ _ hq => hq)) h.waiting
    rw [Station.get?_addClient] at hget
    split at hget
    · simp at hget
    · exact hget
  | @join a b sa sb hab =>
    refine ⟨hgrown.sane, fun c st' d hops next link hc hget => ?_, fun t ht => ?_, fun w hw => ?_⟩
    · rcases hab.cases hc with ⟨st, e, hs, rfl, -, -⟩ | hs
      · rw [Station.get?_joined] at hget
        split at hget
        next he =>
          cases hget
          rw [he.1]
          exact ⟨⟨_, Station.mem_joined.2 (.inr rfl), rfl, rfl⟩, 0, rfl, way_self _ _⟩
        next =>
          obtain ⟨⟨line, hl, hline⟩, k, hk, hway⟩ := h.routes c st d hops next link hs hget
          exact ⟨⟨line, Station.mem_joined.2 (.inl hl), hline⟩, k, hk, hway.mono hgrown.extended⟩
      · obtain ⟨hline, k, hk, hway⟩ := h.routes c st' d hops next link hs hget
        exact ⟨hline, k, hk, hway.mono hgrown.extended⟩
    · exact (h.pending t (hab.pending_of_join ht)).mono hgrown.extended
    · have hold : w ∈ m.waiting := by simpa [Mesh.join, joinOneWay] using hw
      exact (h.waiting w hold).mono hgrown.extended
  | enable hooks => exact h.refile rfl (fun _ ht => ht) h.waiting
  | @give w hw p =>
    have hrest : ∀ v ∈ m.waiting.eraseP p, m.Ready v.interceptor.owner v.msg :=
      fun v hv => h.waiting v (List.mem_of_mem_eraseP hv)
    have herased : ({ m with waiting := m.waiting.eraseP p } : Mesh).Sound :=
      h.refile rfl (fun _ ht => ht) hrest
    have hextended : m.Extends { m with waiting := m.waiting.eraseP p } :=
      extends_of_stations rfl
    refine herased.posts (posts_release _ _ w ((h.waiting w hw).mono hextended)) fun v hv => ?_
    rw [updateServer, waiting_update] at hv
    exact (hrest v hv).mono hextended
  | @deliver place t ht hroom =>
    have hextended : m.Extends { m with wire := m.wire.eraseIdx place } :=
      extends_of_stations rfl
    have herased : ({ m with wire := m.wire.eraseIdx place } : Mesh).Sound :=
      h.refile rfl (fun _ ht => List.mem_of_mem_eraseIdx ht) h.waiting
    exact herased.deliver ((h.pending t (.inl (List.mem_of_getElem? ht))).mono hextended) hroom

theorem Sound.effect (h : m.Sound) {mv : Move} (ha : m.Admits mv) (ho : m.Onward mv) :
    (m.effect mv).Sound := by
  refine (h.toSane.effect_induction (I := Sound)
    (fun _ _ _ hs (ht : Turn HasRoom _ _) => hs.turn ht) h ha ?_).2
  rintro place rfl t ht msg hmsg
  exact ho t ht msg (by rw [hmsg]; rfl)

theorem Sound.settle (h : m.Sound) : m.settle.1.Sound :=
  h.toSane.settle_induction (I := Sound) (fun _ _ _ hs (ht : Turn HasRoom _ _) => hs.turn ht) h

theorem Sound.move (h : m.Sound) {mv : Move} (ha : m.Admits mv) (ho : m.Onward mv) :
    (m.move mv).Sound :=
  (h.effect ha ho).settle

theorem sound_new (servers : List Id) (config : Config) (interceptors : List Interceptor)
    (enabled : Bool) : (Mesh.new servers config interceptors enabled).Sound := by
  refine ⟨sane_new servers config interceptors enabled, fun id st d _ _ _ hs hget => ?_,
    fun t ht => ?_, fun w hw => absurd hw List.not_mem_nil⟩
  · rw [eq_of_station?_new hs] at hget
    cases hget
  · rcases ht with hwire | ⟨st, hs, line, hl, -⟩
    · exact absurd hwire List.not_mem_nil
    · rw [eq_of_station?_new hs] at hl
      exact absurd hl List.not_mem_nil

theorem Sound.play (h : m.Sound) {moves : List Move} (ha : m.Obeys Admits moves)
    (ho : m.Obeys Onward moves) : (m.play moves).Sound := by
  induction moves generalizing m with
  | nil => exact h
  | cons mv moves ih => exact ih (h.move ha.1 ho.1) ha.2 ho.2

/-- A route to a server follows a path of as many connections as it has hops. -/
theorem Sound.walk_of_route (h : m.Sound) {s d next : Id} {hops : Nat} {link : LinkId}
    (hs : m.station? s = some st) (hget : st.server.routes.get? d = some ⟨.server hops next, link⟩) :
    ∃ (first : m.graph.Adj s next) (rest : m.graph.Walk next d),
      (SimpleGraph.Walk.cons first rest).length = hops := by
  obtain ⟨⟨line, hl, hpeer, -⟩, k, rfl, ⟨w, hw⟩, -⟩ := h.routes s st d hops next link hs hget
  have hadj : m.graph.Adj s next := h.adj_iff.2 (linked_iff.2 ⟨st, hs, line, hl, hpeer⟩)
  exact ⟨hadj, w, by rw [SimpleGraph.Walk.length_cons, hw]⟩

/-- The neighbours of a server are the servers that it has a connection to. -/
theorem Sound.mem_neighbours_iff (h : m.Sound) {s d : Id} (hs : m.station? s = some st) :
    (∃ r, (d, r) ∈ st.server.routes.neighbours) ↔ m.graph.Adj s d := by
  constructor
  · rintro ⟨⟨reach, link⟩, hr⟩
    obtain ⟨hmem, hone⟩ := List.mem_filter.1 hr
    have hget := st.server.routes.entries.mem_toList_iff.1 hmem
    cases reach with
    | client => simp [Route.isNeighbour] at hone
    | server hops next =>
      obtain rfl : hops = 1 := by simpa [Route.isNeighbour] using hone
      obtain ⟨first, rest, hlength⟩ := h.walk_of_route hs hget
      rw [SimpleGraph.Walk.length_cons, Nat.add_eq_right] at hlength
      rwa [← SimpleGraph.Walk.eq_of_length_eq_zero hlength]
  · intro hadj
    obtain ⟨st', hs', line, hl, hpeer⟩ := linked_iff.1 (h.adj_iff.1 hadj)
    obtain rfl : st = st' := Option.some.inj (hs.symm.trans hs')
    have hdirect := (h.wired s st hs).direct line hl d hpeer
    exact ⟨_, List.mem_filter.2 ⟨st.server.routes.entries.mem_toList_iff.2 hdirect, rfl⟩⟩

/-- In an overlay that grows, as long as no message comes to a server that its path has no room for:
every route to a server leads over the connection to its next hop and follows a path of as many
connections as it has hops, and exactly the servers with a connection are neighbours. -/
theorem routes_sound (servers : List Id) (config : Config) (interceptors : List Interceptor)
    (enabled : Bool) (moves : List Move)
    (ha : (Mesh.new servers config interceptors enabled).Obeys Admits moves)
    (ho : (Mesh.new servers config interceptors enabled).Obeys Onward moves) :
    let m := (Mesh.new servers config interceptors enabled).play moves
    ∀ s st, m.station? s = some st →
      (∀ d hops next link, st.server.routes.get? d = some ⟨.server hops next, link⟩ →
        (∃ line, st.lineTo? next = some line ∧ line.link = link) ∧
        (∃ (first : m.graph.Adj s next) (rest : m.graph.Walk next d),
          (SimpleGraph.Walk.cons first rest).length = hops) ∧
        m.graph.dist s d ≤ hops) ∧
      ∀ d, (∃ r, (d, r) ∈ st.server.routes.neighbours) ↔ m.graph.Adj s d := by
  intro m s st hs
  have h : m.Sound := (sound_new servers config interceptors enabled).play ha ho
  refine ⟨fun d hops next link hget => ?_, fun d => h.mem_neighbours_iff hs⟩
  obtain ⟨⟨line, hl, hpeer, he⟩, -⟩ := h.routes s st d hops next link hs hget
  obtain ⟨first, rest, hlength⟩ := h.walk_of_route hs hget
  refine ⟨⟨line, (h.wired s st hs).lineTo?_iff.2 ⟨hl, hpeer⟩, he⟩, ⟨first, rest, hlength⟩, ?_⟩
  rw [← hlength]
  exact SimpleGraph.dist_le _

/-- Three servers in a row get to know each other; a client of the middle one says something. -/
def hello : List Move :=
  [.join 1 2, .join 2 3, .step (.at 2 (.client none {})), .step (.at 3 (.command .announce)),
    .deliver 0, .deliver 0,
    .step (.at 2 (.frame "200" {}
      ⟨MessageType.chat, 200, Wire.encodeMessage (.new 200 (.chat 0 "hello"))⟩)),
    .deliver 0, .deliver 1]

theorem routes_sound_hello :
    let m := (Mesh.new [1, 2, 3] {} [] false).play hello
    (Mesh.new [1, 2, 3] {} [] false).Obeys Admits hello ∧
      (Mesh.new [1, 2, 3] {} [] false).Obeys Onward hello ∧
      (m.server? 1).bind (·.routes.get? 3) = some ⟨.server 2 2, 0⟩ ∧ m.graph.dist 1 3 ≤ 2 := by
  intro m
  have ha : (Mesh.new [1, 2, 3] {} [] false).Obeys Admits hello := by decide +kernel
  have ho : (Mesh.new [1, 2, 3] {} [] false).Obeys Onward hello := by decide +kernel
  have hroute : (m.server? 1).bind (·.routes.get? 3) = some ⟨.server 2 2, 0⟩ := by decide +kernel
  obtain ⟨server, hserver, hget⟩ := Option.bind_eq_some_iff.1 hroute
  obtain ⟨st, hs, rfl⟩ := Option.map_eq_some_iff.1 hserver
  have hsound := routes_sound [1, 2, 3] {} [] false hello ha ho 1 st hs
  exact ⟨ha, ho, hroute, (hsound.1 3 2 2 0 hget).2.2⟩

/-- The token for server 5 is on its way from 1 to 2 when 1 and 5 get a connection, so that 2 sends it
back to 1. There is no room for 1 a second time, and 5 gets a message from 1 that seems to come
from 2. -/
def detour : List Move :=
  [.step (.at 1 (.command .elect)), .join 1 2, .join 2 3, .join 3 4, .join 4 5,
    .step (.at 5 (.command .request)), .deliver 0, .deliver 0, .deliver 0, .deliver 1,
    .join 1 5, .step (.at 5 (.command .announce)), .deliver 8, .deliver 8,
    .deliver 6, .deliver 9, .deliver 9]

/-- Server 5 takes server 2 for a neighbour, over its connection to server 1. -/
theorem stray_neighbour :
    let m := (Mesh.new [1, 2, 3, 4, 5] {} [] false).play detour
    (Mesh.new [1, 2, 3, 4, 5] {} [] false).Obeys Admits detour ∧
      (m.server? 5).bind (·.routes.get? 2) = some ⟨.server 1 2, 1⟩ ∧
      (m.line? 5 1).map (·.link) = some 1 ∧ ¬ m.graph.Adj 5 2 := by
  intro m
  have ha : (Mesh.new [1, 2, 3, 4, 5] {} [] false).Obeys Admits detour := by decide +kernel
  have hroute : (m.server? 5).bind (·.routes.get? 2) = some ⟨.server 1 2, 1⟩ := by decide +kernel
  have hline : (m.line? 5 1).map (·.link) = some 1 := by decide +kernel
  have hto : ¬ m.Linked 5 2 := by decide +kernel
  have hback : ¬ m.Linked 2 5 := by decide +kernel
  refine ⟨ha, hroute, hline, fun hadj => ?_⟩
  exact (graph_adj.1 hadj).2.elim hto hback

end Mesh

end RelayMesh
