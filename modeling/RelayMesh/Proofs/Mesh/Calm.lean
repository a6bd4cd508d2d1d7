import RelayMesh.Proofs.Mesh.Turns

namespace RelayMesh

namespace Station

/-- What only a new connection or a shutdown changes at a station. -/
def outfit (st : Station) : List Line × Config × Bool := (st.lines, st.server.config, st.server.down)

theorem Alike.outfit {st st' : Station} (h : st.Alike st') : st'.outfit = st.outfit := by
  unfold Station.outfit
  rw [h.lines, h.config, h.down]

end Station

namespace Server

/-- Without interceptors no message is kept back. -/
theorem withheld_of_disabled {hooks : Interception} (h : hooks.enabled = false) (s : Server)
    (type : MessageType) (msg : Message) : (s.dispatch hooks type msg).2 = none := by
  have hclaim : hooks.claim s.identity msg = none := by simp [Interception.claim, h]
  simp only [dispatch, hclaim]
  split
  · rfl
  · split <;> rfl

end Server

namespace Mesh

/-- The connections and the configurations are as before, no server has gone down, and no message
more is kept back. -/
structure Still (m m' : Mesh) : Prop where
  hooks : m'.hooks = m.hooks
  waiting : m'.waiting = m.waiting
  outfits : ∀ id, (m'.station? id).map Station.outfit = (m.station? id).map Station.outfit

variable {m m' m'' : Mesh} {a b : Id} {st st' : Station} {t : Transit} {servers : List Id}
  {config : Config}

theorem still_refl (m : Mesh) : m.Still m := ⟨rfl, rfl, fun _ => rfl⟩

theorem Still.trans (h : m.Still m') (h' : m'.Still m'') : m.Still m'' :=
  ⟨h'.hooks.trans h.hooks, h'.waiting.trans h.waiting,
    fun id => (h'.outfits id).trans (h.outfits id)⟩

theorem Alike.still (h : m.Alike m') (hh : m'.hooks = m.hooks) (hw : m'.waiting = m.waiting) :
    m.Still m' := by
  refine ⟨hh, hw, fun id => ?_⟩
  cases hs : m.station? id with
  | some st =>
    obtain ⟨st', hs', ha⟩ := h.forth id st hs
    rw [hs', Option.map_some, Option.map_some, ha.outfit]
  | none =>
    cases hs' : m'.station? id with
    | none => rfl
    | some st' =>
      obtain ⟨st, hold, -⟩ := h.back id st' hs'
      rw [hs] at hold
      cases hold

theorem still_set (hs : m.station? a = some st) (h : st'.outfit = st.outfit) :
    m.Still (m.set a st') := by
  refine ⟨rfl, rfl, fun id => ?_⟩
  rw [station?_set]
  split
  next he => rw [he, hs, Option.map_some, Option.map_some, h]
  next => rfl

theorem Still.station (h : m.Still m') (hs' : m'.station? a = some st') :
    ∃ st, m.station? a = some st ∧ st'.outfit = st.outfit := by
  have ho := h.outfits a
  rw [hs', Option.map_some] at ho
  obtain ⟨st, hs, he⟩ := Option.map_eq_some_iff.1 ho.symm
  exact ⟨st, hs, he.symm⟩

theorem Still.isSome (h : m.Still m') : (m'.station? a).isSome ↔ (m.station? a).isSome := by
  rw [← Option.isSome_map, ← Option.isSome_map (x := m.station? a) (f := Station.outfit), h.outfits]

theorem Still.graph (h : m.Still m') : m'.graph = m.graph := by
  have line : ∀ (m : Mesh) a b, m.line? a b =
      ((m.station? a).map Station.outfit).bind fun o => o.1.find? (·.peer = some b) := by
    intro m a b
    unfold line?
    cases m.station? a <;> rfl
  have linked : m'.Linked = m.Linked := by
    funext a b
    unfold Linked
    rw [line, line, h.outfits]
  rw [Mesh.graph, Mesh.graph, linked]

/-- The servers of the overlay are up, and no message is kept back. -/
structure Calm (servers : List Id) (config : Config) (m : Mesh) : Prop extends m.Sane where
  hooks : m.hooks.enabled = false
  waiting : m.waiting = []
  members : ∀ id, (m.station? id).isSome ↔ id ∈ servers
  up : ∀ id st, m.station? id = some st → st.server.down = false
  config : ∀ id st, m.station? id = some st → st.server.config = config

theorem Calm.still (h : m.Calm servers config) (hs : m'.Sane) (h' : m.Still m') :
    m'.Calm servers config where
  toSane := hs
  hooks := by rw [h'.hooks]; exact h.hooks
  waiting := h'.waiting.trans h.waiting
  members id := h'.isSome.trans (h.members id)
  up id st' hs' := by
    obtain ⟨st, hs, he⟩ := h'.station hs'
    exact (congrArg (·.2.2) he).trans (h.up id st hs)
  config id st' hs' := by
    obtain ⟨st, hs, he⟩ := h'.station hs'
    exact (congrArg (·.2.1) he).trans (h.config id st hs)

theorem Sane.alike_collect (h : m.Sane) : m.Alike m.collect.1 := by
  have hexpire := posts_expire (fun _ _ => True) m
  have hsane := (h.alike hexpire.alike).sane
  exact hexpire.alike.trans (collects_collectEach hsane.orderly m.expire.stations.keys).alike

theorem Sane.still_collect (h : m.Sane) : m.Still m.collect.1 := by
  have hsane := (h.alike (posts_expire (fun _ _ => True) m).alike).sane
  have hcollect := collects_collectEach hsane.orderly m.expire.stations.keys
  exact h.alike_collect.still hcollect.hooks hcollect.waiting

/-- If no message is kept back, nothing follows from a move but that the queues are emptied. -/
theorem Sane.settle_eq (h : m.Sane) (hw : m.waiting = []) : m.settle.1 = m.collect.1 := by
  have hnone : m.collect.1.waiting.length = 0 := by
    rw [h.still_collect.waiting, hw]
    rfl
  have hsettle : m.settle.1 = (m.collect.1.giveReady m.collect.1.waiting.length).1 := rfl
  rw [hsettle, hnone]
  rfl

theorem Calm.still_settle (h : m.Calm servers config) : m.Still m.settle.1 := by
  rw [h.toSane.settle_eq h.waiting]
  exact h.toSane.still_collect

theorem Calm.alike_settle (h : m.Calm servers config) : m.Alike m.settle.1 := by
  rw [h.toSane.settle_eq h.waiting]
  exact h.toSane.alike_collect

theorem Calm.settle (h : m.Calm servers config) : m.settle.1.Calm servers config :=
  h.still h.toSane.settle.sane h.still_settle

/-- A server that gets a message learns and sends, and no more, if there are no interceptors. -/
theorem Handles.deliver_open {line : Line} {msg : Message} (h : m.Handles t st line msg)
    (hm : m.Sane) (hoff : m.hooks.enabled = false) : m.deliver t = m.set t.target { st with server :=
      ((st.server.learnRoutes msg line.link).dispatch m.hooks t.frame.type msg).1 } := by
  rw [h.deliver hm]
  simp only [Server.withheld_of_disabled hoff, Option.toList_none, List.append_nil]
  rfl

theorem Handles.deliver_calm {line : Line} {msg : Message} (h : m.Handles t st line msg)
    (hm : m.Calm servers config) : m.deliver t = m.set t.target { st with server :=
      ((st.server.learnRoutes msg line.link).dispatch m.hooks t.frame.type msg).1 } :=
  h.deliver_open hm.toSane hm.hooks

theorem Calm.still_deliver (h : m.Calm servers config) (t : Transit) : m.Still (m.deliver t) := by
  rcases h.toSane.deliver_cases t with hsame | ⟨st, line, msg, hh⟩
  · rw [hsame]
    exact m.still_refl
  · rw [hh.deliver_calm h]
    have hsends := st.sends_taught m.hooks t.frame.type msg line.link
    exact still_set hh.station (Station.alike_of_sends hsends).outfit

/-- What the server has learned from the message it knows before it sends. -/
theorem Handles.posts_deliver {line : Line} {msg : Message} (h : m.Handles t st line msg)
    (hm : m.Calm servers config) :
    Posts (fun _ _ => True) (m.set t.target (st.taught msg.path line.link)) (m.deliver t) := by
  have hsends := st.sends_taught m.hooks t.frame.type msg line.link
  have hself : (m.set t.target (st.taught msg.path line.link)).station? t.target =
    some (st.taught msg.path line.link) := station?_set_self
  have hposts := posts_set (fun _ _ => True) hself
    ((st.taught msg.path line.link).posts_of_sends (fun _ _ => trivial) hsends)
  rw [set_set] at hposts
  rw [h.deliver_calm hm]
  exact hposts

/-- A frame on its way is so still after another one has arrived. -/
theorem Calm.pending_deliver (h : m.Calm servers config) {t' : Transit} (ht : m.Pending t') :
    (m.deliver t).Pending t' := by
  rcases h.toSane.deliver_cases t with hsame | ⟨st, line, msg, hh⟩
  · rwa [hsame]
  · have htaught : (m.set t.target (st.taught msg.path line.link)).Pending t' :=
      pending_set (st.taught msg.path line.link) hh.station (fun _ _ hq => hq) ht
    exact (hh.posts_deliver h).pending_of_pending htaught

theorem Calm.erase (h : m.Calm servers config) (place : Nat) :
    ({ m with wire := m.wire.eraseIdx place } : Mesh).Calm servers config := by
  have herased : m.Grown { m with wire := m.wire.eraseIdx place } :=
    h.toSane.alike (alike_of_stations rfl)
  exact h.still herased.sane ⟨rfl, rfl, fun _ => rfl⟩

/-- An announcement is asked for at a server. -/
def announcement (d : Id) : Move := .step (.at d (.command .announce))

/-- A frame arrives, or a server is asked to announce itself. -/
def Move.discovers : Move → Bool
  | .deliver _ => true
  | .step (.at _ (.command .announce)) => true
  | _ => false

theorem Move.discovers_cases {mv : Move} (h : mv.discovers = true) :
    (∃ d, mv = announcement d) ∨ ∃ place, mv = .deliver place := by
  unfold discovers at h
  split at h
  · exact .inr ⟨_, rfl⟩
  · exact .inl ⟨_, rfl⟩
  · cases h

theorem effect_announcement (hs : m.station? a = some st) :
    m.effect (announcement a) = m.set a { st with server := st.server.announce } := by
  rw [announcement, effect_at hs]
  rfl

/-- A server that announces itself sends on its own account. -/
theorem posts_announcement (hs : m.station? a = some st) :
    Posts (fun _ _ => False) m (m.effect (announcement a)) := by
  have hsends : st.server.Sends none st.server.announce := Server.sends_announce st.server
  rw [effect_announcement hs]
  exact posts_set _ hs (st.posts_of_sends (by simp) hsends)

theorem Calm.effect (h : m.Calm servers config) {mv : Move} (hmv : mv.discovers = true) :
    (m.effect mv).Calm servers config ∧ m.Still (m.effect mv) := by
  rcases Move.discovers_cases hmv with ⟨d, rfl⟩ | ⟨place, rfl⟩
  · cases hs : m.station? d with
    | none =>
      rw [announcement, effect_at_none hs]
      exact ⟨h, m.still_refl⟩
    | some st =>
      have hsends : st.server.Sends none st.server.announce := Server.sends_announce st.server
      have hstill := still_set hs (Station.alike_of_sends hsends).outfit
      rw [effect_announcement hs]
      exact ⟨h.still (h.toSane.act hs hsends).sane hstill, hstill⟩
  · cases ht : m.wire[place]? with
    | none =>
      rw [effect_deliver_none ht]
      exact ⟨h, m.still_refl⟩
    | some t =>
      have herased : m.Still { m with wire := m.wire.eraseIdx place } := ⟨rfl, rfl, fun _ => rfl⟩
      have hcalm := h.erase place
      have hstill := hcalm.still_deliver t
      rw [effect_deliver ht]
      exact ⟨hcalm.still (hcalm.toSane.deliver t).sane hstill, herased.trans hstill⟩

theorem Calm.join_strangers (h : m.Calm servers config) {sa sb : Station}
    (hab : m.Strangers a b sa sb) : (m.join a b).Calm servers config where
  toSane := (h.toSane.join hab).sane
  hooks := by simpa [Mesh.join, joinOneWay] using h.hooks
  waiting := by simpa [Mesh.join, joinOneWay] using h.waiting
  members id := hab.isSome.trans (h.members id)
  up id st' hs' := by
    rcases hab.cases hs' with ⟨st, d, hs, rfl, -, -⟩ | hs
    · exact h.up id st hs
    · exact h.up id st' hs
  config id st' hs' := by
    rcases hab.cases hs' with ⟨st, d, hs, rfl, -, -⟩ | hs
    · exact h.config id st hs
    · exact h.config id st' hs

theorem Calm.joined (h : m.Calm servers config) (ha : m.Admits (.join a b)) :
    (m.join a b).Calm servers config := by
  obtain ⟨sa, sb, hab⟩ := h.toSane.exists_strangers ha
  exact h.join_strangers hab

theorem Calm.join (h : m.Calm servers config) (ha : m.Admits (.join a b)) :
    (m.move (.join a b)).Calm servers config :=
  (h.joined ha).settle

theorem calm_new (servers : List Id) (config : Config) :
    (Mesh.new servers config [] false).Calm servers config where
  toSane := sane_new servers config [] false
  hooks := rfl
  waiting := rfl
  members id := by
    rw [station?_new]
    by_cases h : id ∈ servers <;> simp [h]
  up id st hs := by rw [eq_of_station?_new hs]; rfl
  config id st hs := by rw [eq_of_station?_new hs]; rfl

end Mesh

end RelayMesh
