import RelayMesh.Proofs.Mesh.Calm
import RelayMesh.Proofs.Mesh.Sound
import RelayMesh.Proofs.Mesh.Space
import RelayMesh.Proofs.Server.Steps

namespace RelayMesh

/-- An announcement of the server `d` that has gone through the servers of `path`. -/
def Message.announced (d : Id) (path : List Id) : Message := ⟨d, path, none, .identity⟩

/-- An announcement for everybody, or for the server that it has come to, goes on to all neighbours
that it has not visited. -/
theorem Server.dispatch_identity {hooks : Interception} (h : hooks.enabled = false) (s : Server)
    (d : Id) (path : List Id) {dest : Option Id} (hdest : ∀ e ∈ dest, e = s.identity) :
    (s.dispatch hooks MessageType.identity ⟨d, path, dest, .identity⟩).1 =
      (s.flood none MessageType.identity (.announced d path)).1 := by
  have hnone : s.otherRecipient? ⟨d, path, dest, .identity⟩ = none := by
    simpa [otherRecipient?, Option.filter_eq_none_iff] using hdest
  have hclaim : hooks.claim s.identity ⟨d, path, dest, .identity⟩ = none := by
    simp [Interception.claim, h]
  have haction : Action.ofType? MessageType.identity =
      some ⟨"IDENTITY_MESSAGE", MessageType.identity, .identity⟩ := by decide
  have hservers : MessageType.isForClients MessageType.identity = false := by decide
  have hkind : (⟨d, path, dest, .identity⟩ : Message).content.kind = .identity := rfl
  simp only [dispatch, hservers, Bool.false_eq_true, if_false, hnone, hclaim, perform, execute,
    haction, hkind, if_true, receive, receiveIdentity]
  rfl

namespace Mesh

/-- An announcement fits a frame, whichever simple path of servers it has gone along. -/
def Sized (servers : List Id) (config : Config) : Prop :=
  ∀ d path, d ∈ path → path.Nodup → path ⊆ servers →
    (Wire.encodeMessage (.announced d path)).length ≤ config.maxMessageSize.toNat

/-- The announcement of `d` that has gone through the servers of `path` is on its way to `b`. -/
def Spreads (m : Mesh) (d : Id) (path : List Id) (b : Id) : Prop :=
  ∃ t, m.Pending t ∧ path.getLast? = some t.source ∧ t.target = b ∧
    t.frame.type = MessageType.identity ∧ t.frame.Carries (.announced d path)

/-- Along every simple path on which the announcement of `d` goes on from `z` through `G`, after it has
gone through the servers `before`, it has got to the end or is on its way there. -/
def CoversFrom (G : SimpleGraph Id) (m : Mesh) (d : Id) (before : List Id) (z : Id) : Prop :=
  ∀ path a, (before ++ z :: (path ++ [a])).Nodup → (z :: (path ++ [a])).IsChain G.Adj →
    m.Knows a d (path.length + before.length + 1) ∨
      ∃ q b r, path ++ [a] = q ++ b :: r ∧ m.Spreads d (before ++ z :: q) b

/-- The announcement of `d` has got, or is on its way, along every simple path of `G` from `d`. -/
def CoversIn (G : SimpleGraph Id) (m : Mesh) (d : Id) : Prop := m.CoversFrom G d [] d

/-- The announcement of `d` has got, or is on its way, along every simple path of connections. -/
def Covers (m : Mesh) (d : Id) : Prop := m.CoversIn m.graph d

/-- A server announces itself, or a frame arrives, and no queue is full afterwards. -/
def Discovers (m : Mesh) (mv : Move) : Prop := mv.discovers = true ∧ (m.effect mv).Roomy

instance (m : Mesh) (mv : Move) : Decidable (m.Discovers mv) :=
  inferInstanceAs (Decidable (_ ∧ _))

variable {m m' : Mesh} {a b c d z : Id} {st : Station} {t : Transit}
  {servers path q before : List Id}
  {config : Config} {place : Nat} {G : SimpleGraph Id}

theorem admits_of_discovers {mv : Move} (h : m.Discovers mv) : m.Admits mv := by
  rcases Move.discovers_cases h.1 with ⟨d, rfl⟩ | ⟨place, rfl⟩
  · intro st _ msg hmsg
    cases hmsg
  · trivial

/-- A server that announces itself, or passes on an announcement, has it spread to its neighbours. -/
theorem spreads_flood (hw : st.Wired b) {s : Server} (hid : s.identity = b)
    (hroutes : ∀ c, s.routes.get? c = st.server.routes.get? c)
    (hf : ∃ f, s.frame MessageType.identity (.announced d (path ++ [b])) = .ok f)
    (hnew : b ∉ path) {line : Line} (hl : line ∈ st.lines) (hpeer : line.peer = some c)
    (hc : c ∉ path ++ [b])
    (hroomy : (m.set b { st with
      server := (s.flood none MessageType.identity (.announced d path)).1 }).Roomy) :
    (m.set b { st with server := (s.flood none MessageType.identity (.announced d path)).1 }).Spreads
      d (path ++ [b]) c := by
  obtain ⟨f, hf⟩ := hf
  have hcount : (Message.announced d path).path.count b = 0 :=
    List.count_eq_zero_of_not_mem hnew
  have happend : (Message.announced d path).appendToPath b = .announced d (path ++ [b]) :=
    if_pos (by rw [hcount]; exact Nat.two_pos)
  have hneighbour : (c, (⟨.server 1 c, line.link⟩ : Route)) ∈ s.routes.neighbours := by
    refine List.mem_filter.2 ⟨s.routes.entries.mem_toList_iff.2 ?_, rfl⟩
    exact (hroutes c).trans (hw.direct line hl c hpeer)
  have hspace := hroomy.hasSpace station?_set_self hl (by simp [hpeer])
  have hc' : c ∉ ((Message.announced d path).appendToPath s.identity).path := by
    rw [hid, happend]
    exact hc
  have hf' : s.frame MessageType.identity ((Message.announced d path).appendToPath s.identity) =
      .ok f := by
    rw [hid, happend]
    exact hf
  have hwaits := Server.mem_waiting_flood hneighbour hc' hf' hspace
  refine ⟨⟨b, c, f⟩, .inr ⟨_, station?_set_self, line, hl, hpeer, hwaits⟩, by simp, rfl, ?_, ?_⟩
  · exact Frame.type_of_ofMessage hf
  · exact Frame.carries_of_ofMessage hf

/-- A message of the size that is allowed can be written. -/
theorem Calm.frame_of_le (h : m.Calm servers config) (hs : m.station? b = some st) {msg : Message}
    (hle : (Wire.encodeMessage msg).length ≤ config.maxMessageSize.toNat) (type : MessageType) :
    ∃ f, st.server.frame type msg = .ok f := by
  rw [← h.config b st hs] at hle
  exact ⟨_, Frame.ofMessage_eq_ok_iff.2 ⟨hle, rfl⟩⟩

/-- An announcement that has gone along a simple path of servers can be written. -/
theorem Calm.exists_frame (h : m.Calm servers config) (hsize : Sized servers config)
    (hs : m.station? b = some st) (hd : d ∈ path) (hnodup : path.Nodup)
    (hmem : ∀ x ∈ path, (m.station? x).isSome) :
    ∃ f, st.server.frame MessageType.identity (.announced d path) = .ok f :=
  h.frame_of_le hs (hsize d path hd hnodup fun x hx => (h.members x).1 (hmem x hx)) _

/-- Servers along a path of connections are servers. -/
theorem Sane.isSome_of_chain (h : m.Sane) (hpath : (d :: path).IsChain m.graph.Adj)
    (hd : (m.station? d).isSome) : ∀ x ∈ d :: path, (m.station? x).isSome := by
  induction path generalizing d with
  | nil => simpa using hd
  | cons b path ih =>
    rw [List.isChain_cons_cons] at hpath
    intro x hx
    rcases List.mem_cons.1 hx with rfl | hx
    · exact hd
    · exact ih hpath.2 (h.isSome_of_linked (h.adj_iff.1 hpath.1)) x hx

/-- A server that announces itself lets the announcement out along every path from it. -/
theorem Calm.covers_announcement (h : m.Calm servers config) (hsize : Sized servers config)
    (hs : m.station? d = some st) (hroomy : (m.effect (announcement d)).Roomy) :
    (m.effect (announcement d)).Covers d := by
  intro path a hnodup hchain
  have hstill : m.Still (m.effect (announcement d)) := (h.effect rfl).2
  rw [hstill.graph] at hchain
  obtain ⟨b, r, hfirst⟩ : ∃ b r, path ++ [a] = b :: r := by cases path <;> simp
  refine .inr ⟨[], b, r, hfirst, ?_⟩
  rw [hfirst] at hnodup hchain
  have hadj : m.graph.Adj d b := (List.isChain_cons_cons.1 hchain).1
  obtain ⟨st', hs', line, hl, hpeer⟩ := linked_iff.1 (h.adj_iff.1 hadj)
  obtain rfl : st = st' := Option.some.inj (hs.symm.trans hs')
  have hid := (h.wired d st hs).identity
  have hannounce : st.server.announce =
      (st.server.flood none MessageType.identity (.announced d [])).1 := by
    rw [Server.announce, hid]
    rfl
  rw [effect_announcement hs, hannounce] at hroomy ⊢
  have hframe : ∃ f, st.server.frame MessageType.identity (.announced d ([] ++ [d])) = .ok f :=
    h.exists_frame hsize hs List.mem_cons_self (List.nodup_singleton d) (by simp [hs])
  exact spreads_flood (h.wired d st hs) hid (fun _ => rfl) hframe List.not_mem_nil hl hpeer
    (by simpa using hadj.ne') hroomy

/-- An announcement that arrives along a simple path makes the announced server known, and goes on to
the neighbours that are not on the path. -/
theorem Calm.spread (h : m.Calm servers config) (hsize : Sized servers config)
    (htype : t.frame.type = MessageType.identity) {dest : Option Id}
    (hcarries : t.frame.Carries ⟨d, d :: q, dest, .identity⟩) (hdest : ∀ e ∈ dest, e = t.target)
    (hlast : (d :: q).getLast? = some t.source) (hnodup : (d :: q ++ [t.target]).Nodup)
    (hchain : (d :: q ++ [t.target]).IsChain m.graph.Adj) :
    (m.deliver t).Knows t.target d (q.length + 1) ∧ ∀ c, m.graph.Adj t.target c →
      c ∉ d :: q ++ [t.target] → (m.deliver t).Roomy →
        (m.deliver t).Spreads d (d :: q ++ [t.target]) c := by
  have hadj : m.graph.Adj t.source t.target :=
    (List.isChain_append.1 hchain).2.2 _ hlast _ rfl
  have hnew : t.target ∉ d :: q := fun hmem =>
    (List.nodup_append.1 hnodup).2.2 _ hmem _ (List.mem_singleton_self _) rfl
  obtain ⟨st, hs, line, hl, hpeer⟩ := linked_iff.1 (h.adj_iff.1 hadj.symm)
  have hh : m.Handles t st line ⟨d, d :: q, dest, .identity⟩ :=
    ⟨hs, hl, hpeer, h.up _ st hs, hcarries.message_of_fits trivial⟩
  have hwired := h.wired _ st hs
  have hd : (m.station? d).isSome := by
    cases q with
    | nil =>
      obtain rfl : d = t.source := by simpa using hlast
      exact h.isSome_of_linked (h.adj_iff.1 hadj.symm)
    | cons b q =>
      have hfirst : m.graph.Adj d b := (List.isChain_cons_cons.1 hchain).1
      exact h.isSome_of_linked (h.adj_iff.1 hfirst.symm)
  refine ⟨(hh.grown h.toSane).2.extended.knows _ _ _ ⟨_, station?_set_self, ?_⟩,
    fun c hc hfree hroomy => ?_⟩
  · refine Routes.within_learn hlast ?_ (by simp) ?_ (h.nobody _ st d hs hd) line.link
    · rw [hwired.own]
      exact hadj.ne
    · rw [hwired.own]
      rintro rfl
      exact hnew List.mem_cons_self
  · obtain ⟨st', hs', line', hl', hpeer'⟩ := linked_iff.1 (h.adj_iff.1 hc)
    obtain rfl : st = st' := Option.some.inj (hs.symm.trans hs')
    have hmem := h.toSane.isSome_of_chain hchain hd
    have hframe : ∃ f, st.server.frame MessageType.identity
        (.announced d (d :: q ++ [t.target])) = .ok f :=
      h.exists_frame hsize hs List.mem_cons_self hnodup hmem
    have hid : (st.server.learnRoutes ⟨d, d :: q, dest, .identity⟩ line.link).identity =
        t.target := by
      rw [Server.identity_learnRoutes]
      exact hwired.identity
    have hdelivered := hh.deliver_calm h
    rw [htype, Server.dispatch_identity h.hooks _ d (d :: q) (by rw [hid]; exact hdest)]
      at hdelivered
    rw [hdelivered] at hroomy ⊢
    refine spreads_flood (hwired.taught hl (by simp [hpeer]) (d :: q)) hid ?_ ?_ hnew hl' hpeer'
      hfree hroomy
    · rw [Server.routes_learnRoutes]
      exact fun _ => rfl
    · simpa only [Server.frame_learnRoutes] using hframe

/-- Another frame than the one that is taken off the wire stays on its way. -/
theorem pending_erase (ht : m.wire[place]? = some t) {t' : Transit} (hp : m.Pending t')
    (hne : t' ≠ t) : ({ m with wire := m.wire.eraseIdx place } : Mesh).Pending t' := by
  rcases hp with hwire | hqueue
  · obtain ⟨i, hi⟩ := List.mem_iff_getElem?.1 hwire
    refine .inl (List.mem_eraseIdx_iff_getElem?.2 ⟨i, ?_, hi⟩)
    rintro rfl
    exact hne (Option.some.inj (hi.symm.trans ht))
  · exact .inr hqueue

theorem CoversFrom.mono (h : m.CoversFrom G d before z) (he : m.Extends m')
    (hp : ∀ t, m.Pending t → m'.Pending t) : m'.CoversFrom G d before z := by
  intro path a hnodup hchain
  rcases h path a hnodup hchain with hknows | ⟨q, b, r, hsplit, t, ht, hrest⟩
  · exact .inl (he.knows _ _ _ hknows)
  · exact .inr ⟨q, b, r, hsplit, t, hp t ht, hrest⟩

theorem Covers.mono (h : m.Covers d) (hg : m'.graph = m.graph) (he : m.Extends m')
    (hp : ∀ t, m.Pending t → m'.Pending t) : m'.Covers d := by
  have hin : m'.CoversIn m.graph d := CoversFrom.mono h he hp
  rwa [← hg] at hin

/-- An announcement that arrives has got further along the paths that it goes along. -/
theorem Calm.coversFrom_deliver (h : m.Calm servers config) (hsize : Sized servers config)
    (hG : G ≤ m.graph) (hhead : (before ++ [z]).head? = some d)
    (hbefore : (before ++ [z]).IsChain m.graph.Adj) (hc : m.CoversFrom G d before z)
    (ht : m.wire[place]? = some t) (hroomy : (m.effect (.deliver place)).Roomy) :
    (m.effect (.deliver place)).CoversFrom G d before z := by
  have herased := h.erase place
  have hextended : m.Extends { m with wire := m.wire.eraseIdx place } := extends_of_stations rfl
  have hgrown := herased.toSane.deliver t
  intro path a hnodup hchain
  rw [effect_deliver ht] at hroomy ⊢
  rcases hc path a hnodup hchain with
    hknows | ⟨q, b, r, hsplit, t', ht', hlast, hb, htype, hcarries⟩
  · exact .inl (hgrown.extended.knows _ _ _ (hextended.knows _ _ _ hknows))
  · by_cases hsame : t' = t
    · subst hsame hb
      obtain ⟨gone, hgone, hlength⟩ : ∃ gone, before ++ z :: q = d :: gone ∧
          gone.length = before.length + q.length := by
        cases before with
        | nil => exact ⟨q, by simpa using hhead, by simp⟩
        | cons e before => exact ⟨before ++ z :: q, by simpa using hhead, by simp; omega⟩
      have hpath : before ++ z :: (path ++ [a]) = d :: gone ++ [t'.target] ++ r := by
        simp [hsplit, ← hgone]
      have hahead : z :: (path ++ [a]) = z :: q ++ [t'.target] ++ r := by simp [hsplit]
      rw [hpath] at hnodup
      rw [hahead] at hchain
      rw [hgone] at hlast hcarries
      obtain ⟨hdistinct, -, hapart⟩ := List.nodup_append.1 hnodup
      obtain ⟨hchain', -, hnext⟩ := List.isChain_append.1 hchain
      have hwhole : (d :: gone ++ [t'.target]).IsChain m.graph.Adj := by
        rw [← hgone, List.append_assoc, List.cons_append, List.isChain_split]
        exact ⟨hbefore, hchain'.imp fun _ _ hadj => hG hadj⟩
      obtain ⟨hknows, hspreads⟩ := herased.spread hsize htype hcarries (by simp) hlast hdistinct
        hwhole
      cases r with
      | nil =>
        obtain ⟨rfl, he⟩ := List.append_inj' hsplit rfl
        obtain rfl : a = t'.target := by simpa using he
        rw [hlength, Nat.add_comm before.length] at hknows
        exact .inl hknows
      | cons c r =>
        refine .inr ⟨q ++ [t'.target], c, r, by simp [hsplit], ?_⟩
        have hon := hspreads c (hG (hnext _ List.getLast?_concat _ rfl))
          (fun hmem => hapart c hmem c List.mem_cons_self rfl) hroomy
        rw [← hgone] at hon
        simpa using hon
    · exact .inr ⟨q, b, r, hsplit, t', herased.pending_deliver (pending_erase ht ht' hsame), hlast,
        hb, htype, hcarries⟩

theorem Calm.coversIn_deliver (h : m.Calm servers config) (hsize : Sized servers config)
    (hG : G ≤ m.graph) (hc : m.CoversIn G d) (ht : m.wire[place]? = some t)
    (hroomy : (m.effect (.deliver place)).Roomy) : (m.effect (.deliver place)).CoversIn G d :=
  h.coversFrom_deliver hsize hG rfl (List.isChain_singleton d) hc ht hroomy

theorem Calm.covers_deliver (h : m.Calm servers config) (hsize : Sized servers config)
    (hc : m.Covers d) (ht : m.wire[place]? = some t)
    (hroomy : (m.effect (.deliver place)).Roomy) : (m.effect (.deliver place)).Covers d := by
  have hstill : m.Still (m.effect (.deliver place)) := (h.effect rfl).2
  have hin := h.coversIn_deliver hsize (le_refl m.graph) hc ht hroomy
  rwa [← hstill.graph] at hin

/-- Once a server is announced, it stays so. -/
theorem Calm.covers_move (h : m.Calm servers config) (hsize : Sized servers config)
    (hc : m.Covers d) {mv : Move} (hmv : m.Discovers mv) : (m.move mv).Covers d := by
  obtain ⟨hdiscovers, hroomy⟩ := hmv
  obtain ⟨hcalm, hstill⟩ := h.effect hdiscovers
  have heffect : (m.effect mv).Covers d := by
    rcases Move.discovers_cases hdiscovers with ⟨e, rfl⟩ | ⟨place, rfl⟩
    · cases hs : m.station? e with
      | none => rwa [announcement, effect_at_none hs]
      | some st =>
        have hposts := posts_announcement hs
        exact hc.mono hstill.graph hposts.alike.extended fun t => hposts.pending_of_pending
    · cases ht : m.wire[place]? with
      | none => rwa [effect_deliver_none ht]
      | some t => exact h.covers_deliver hsize hc ht hroomy
  exact heffect.mono hcalm.still_settle.graph hcalm.toSane.settle.extended
    fun t => hcalm.toSane.pending_settle

theorem Calm.move (h : m.Calm servers config) {mv : Move} (hmv : m.Discovers mv) :
    (m.move mv).Calm servers config ∧ m.Still (m.move mv) := by
  obtain ⟨hcalm, hstill⟩ := h.effect hmv.1
  exact ⟨hcalm.settle, hstill.trans hcalm.still_settle⟩

theorem Calm.play (h : m.Calm servers config) {moves : List Move} (hm : m.Obeys Discovers moves) :
    (m.play moves).Calm servers config ∧ m.Still (m.play moves) :=
  play_invariant (I := fun m' => m'.Calm servers config ∧ m.Still m')
    (fun _ _ hi hmv => ⟨(hi.1.move hmv).1, hi.2.trans (hi.1.move hmv).2⟩) ⟨h, m.still_refl⟩ hm

/-- A server that has been asked to announce itself is announced from then on. -/
theorem Calm.covers_play (h : m.Calm servers config) (hsize : Sized servers config)
    (hd : d ∈ servers) {moves : List Move} (hm : m.Obeys Discovers moves)
    (ha : announcement d ∈ moves) : (m.play moves).Covers d := by
  induction moves generalizing m with
  | nil => simp at ha
  | cons mv moves ih =>
    obtain ⟨hmv, hrest⟩ := hm
    obtain ⟨hcalm, -⟩ := h.move hmv
    rcases List.mem_cons.1 ha with rfl | ha
    · obtain ⟨st, hs⟩ := Option.isSome_iff_exists.1 ((h.members d).2 hd)
      obtain ⟨heffect, -⟩ := h.effect hmv.1
      have hcovers := (h.covers_announcement hsize hs hmv.2).mono heffect.still_settle.graph
        heffect.toSane.settle.extended fun t => heffect.toSane.pending_settle
      have hall := play_invariant (I := fun m' => m'.Calm servers config ∧ m'.Covers d)
        (fun _ _ hi hmv => ⟨(hi.1.move hmv).1, hi.1.covers_move hsize hi.2 hmv⟩)
        ⟨hcalm, hcovers⟩ hrest
      exact hall.2
    · exact ih hcalm hrest ha

/-- No frame is on its way between two servers. -/
def AtRest (m : Mesh) : Prop :=
  m.wire = [] ∧ ∀ b ∈ m.stations.toList, ∀ line ∈ b.2.lines, line.peer ≠ none →
    b.2.server.outbox.waiting line.link = []

instance (m : Mesh) : Decidable m.AtRest :=
  inferInstanceAs (Decidable (_ ∧ ∀ b ∈ m.stations.toList, ∀ line ∈ b.2.lines, line.peer ≠ none →
    b.2.server.outbox.waiting line.link = []))

theorem AtRest.not_pending (h : m.AtRest) (t : Transit) : ¬ m.Pending t := by
  rintro (hwire | ⟨st, hs, line, hl, hpeer, hf⟩)
  · rw [h.1] at hwire
    exact absurd hwire List.not_mem_nil
  · rw [h.2 (t.source, st) (m.stations.mem_toList_iff.2 hs) line hl (by simp [hpeer])] at hf
    exact absurd hf List.not_mem_nil

/-- A shortest path as a list. -/
theorem exists_chain_of_reachable {G : SimpleGraph Id} (h : G.Reachable d a) (hne : d ≠ a) :
    ∃ path : List Id, (d :: (path ++ [a])).Nodup ∧ (d :: (path ++ [a])).IsChain G.Adj ∧
      path.length + 1 = G.dist d a := by
  obtain ⟨w, hw, hlength⟩ := h.exists_path_of_dist
  have hnodup := hw.support_nodup
  have hchain := w.isChain_adj_support
  cases w with
  | nil => exact absurd rfl hne
  | cons first rest =>
    have hsplit := List.dropLast_append_getLast rest.support_ne_nil
    rw [rest.getLast_support] at hsplit
    rw [SimpleGraph.Walk.support_cons, ← hsplit] at hnodup hchain
    refine ⟨rest.support.dropLast, hnodup, hchain, ?_⟩
    rw [List.length_dropLast, rest.length_support, ← hlength, SimpleGraph.Walk.length_cons]
    rfl

/-- At rest, a server that has announced itself is known everywhere to be as near as it is. -/
theorem CoversIn.knows_of_atRest (h : m.CoversIn G d) (hrest : m.AtRest) (hr : G.Reachable d a)
    (hne : d ≠ a) : m.Knows a d (G.dist d a) := by
  obtain ⟨path, hnodup, hchain, hlength⟩ := exists_chain_of_reachable hr hne
  rw [← hlength]
  rcases h path a hnodup hchain with hknows | ⟨-, -, -, -, t, ht, -⟩
  · exact hknows
  · exact absurd ht (hrest.not_pending t)

theorem Covers.knows_of_atRest (h : m.Covers d) (hrest : m.AtRest) (hr : m.graph.Reachable d a)
    (hne : d ≠ a) : m.Knows a d (m.graph.dist d a) :=
  CoversIn.knows_of_atRest (G := m.graph) h hrest hr hne

/-- Connections are made between servers that have done nothing else yet. -/
def connections (links : List (Id × Id)) : List Move := links.map fun l => .join l.1 l.2

theorem calm_connections {links : List (Id × Id)} (h : m.Calm servers config) (hsound : m.Sound)
    (ha : m.Obeys Admits (connections links)) :
    (m.play (connections links)).Calm servers config ∧ (m.play (connections links)).Sound := by
  induction links generalizing m with
  | nil => exact ⟨h, hsound⟩
  | cons l links ih => exact ih (h.join ha.1) (hsound.move ha.1 trivial) ha.2

/-- Connections are made, then every server announces itself at least once, and all frames arrive in
some order. At rest, every server has a route to every other one that it is connected with, and no
route is longer than their distance. It is the distance if no message came to a server that its path
has no room for. -/
theorem routes_at_rest (servers : List Id) (config : Config) (links : List (Id × Id))
    (moves : List Move) (hsize : Sized servers config)
    (hlinks : (Mesh.new servers config [] false).Obeys Admits (connections links)) :
    let m := (Mesh.new servers config [] false).play (connections links)
    m.Obeys Discovers moves → (∀ d ∈ servers, announcement d ∈ moves) → (m.play moves).AtRest →
      ∀ s ∈ servers, ∀ d ∈ servers, s ≠ d → m.graph.Reachable s d →
        ∃ st hops next link, (m.play moves).station? s = some st ∧
          st.server.routes.get? d = some ⟨.server hops next, link⟩ ∧ hops ≤ m.graph.dist s d ∧
            (m.Obeys Onward moves → hops = m.graph.dist s d) := by
  intro m hmoves hall hrest s _ d hd hne hr
  obtain ⟨hcalm, hsound⟩ := calm_connections (calm_new servers config)
    (sound_new servers config [] false) hlinks
  obtain ⟨-, hstill⟩ := hcalm.play hmoves
  have hgraph : (m.play moves).graph = m.graph := hstill.graph
  have hcovers := hcalm.covers_play hsize hd hmoves (hall d hd)
  obtain ⟨st, hs, hops, next, link, hget, hle⟩ :=
    hcovers.knows_of_atRest hrest (hgraph ▸ hr.symm) hne.symm
  rw [hgraph, SimpleGraph.dist_comm] at hle
  refine ⟨st, hops, next, link, hs, hget, hle, fun honward => Nat.le_antisymm hle ?_⟩
  have hadmits : m.Obeys Admits moves := hmoves.mono fun _ _ => admits_of_discovers
  obtain ⟨first, rest, hlength⟩ := (hsound.play hadmits honward).walk_of_route hs hget
  rw [← hlength, ← hgraph]
  exact SimpleGraph.dist_le _

/-- How long an announcement is, apart from whom it is for. -/
theorem length_identity_le (d : Id) (path : List Id) (dest : Option Id) (h : path.length < 2 ^ 35) :
    (Wire.encodeMessage ⟨d, path, dest, .identity⟩).length ≤
      11 + 5 * path.length + (Wire.encodeOptional dest).length := by
  have hsender := Wire.length_encodeId_le d
  have hcount : (Wire.Varint.encode path.length).length ≤ 5 :=
    Wire.length_encode_le (k := 4) h
  have hpath : ∀ l : List Id, (l.flatMap Wire.encodeId).length ≤ 5 * l.length := by
    intro l
    induction l with
    | nil => exact Nat.le_refl 0
    | cons id l ih =>
      have := Wire.length_encodeId_le id
      rw [List.flatMap_cons, List.length_append, List.length_cons]
      omega
  have hkind : (Wire.encodeContent .identity).length ≤ 1 :=
    Wire.length_encode_le (k := 0) (by decide)
  have hids := hpath path
  simp only [Wire.encodeMessage, List.length_append]
  omega

/-- Twelve bytes, and five more for every server, are enough for an announcement. -/
theorem sized_of_le (h : 12 + 5 * servers.length ≤ config.maxMessageSize.toNat) :
    Sized servers config := by
  intro d path _ hnodup hsub
  have hlength : path.length ≤ servers.length := (hnodup.subperm hsub).length_le
  have hlimit := config.maxMessageSize.toNat_lt
  have hnobody : (Wire.encodeOptional none).length = 1 := rfl
  have hle := length_identity_le d path none (by omega)
  rw [hnobody] at hle
  exact hle.trans (by omega)

/-- The four servers of a ring announce themselves, and frames arrive as they were sent. -/
def rollCall : List Move :=
  [announcement 1, announcement 2, announcement 3, announcement 4] ++
    List.replicate 36 (.deliver 0)

theorem routes_at_rest_ring :
    let m := (Mesh.new [1, 2, 3, 4] {} [] false).play (connections [(1, 2), (2, 3), (3, 4), (4, 1)])
    m.Obeys Discovers rollCall ∧ m.Obeys Onward rollCall ∧ (m.play rollCall).AtRest ∧
      ∃ st hops next link, (m.play rollCall).station? 1 = some st ∧
        st.server.routes.get? 3 = some ⟨.server hops next, link⟩ ∧ hops = m.graph.dist 1 3 := by
  intro m
  have hsize : Sized [1, 2, 3, 4] {} := sized_of_le (by decide)
  have hlinks : (Mesh.new [1, 2, 3, 4] {} [] false).Obeys Admits
    (connections [(1, 2), (2, 3), (3, 4), (4, 1)]) := by decide +kernel
  have hall : ∀ d ∈ ([1, 2, 3, 4] : List Id), announcement d ∈ rollCall := by simp [rollCall]
  have hmoves : m.Obeys Discovers rollCall := by decide +kernel
  have honward : m.Obeys Onward rollCall := by decide +kernel
  have hrest : (m.play rollCall).AtRest := by decide +kernel
  have hfirst : m.graph.Adj 1 2 := graph_adj.2 ⟨by decide, .inl (by decide +kernel)⟩
  have hsecond : m.graph.Adj 2 3 := graph_adj.2 ⟨by decide, .inl (by decide +kernel)⟩
  obtain ⟨st, hops, next, link, hs, hget, -, hdist⟩ :=
    routes_at_rest [1, 2, 3, 4] {} [(1, 2), (2, 3), (3, 4), (4, 1)] rollCall hsize hlinks hmoves
      hall hrest 1 (by decide) 3 (by decide) (by decide)
      (hfirst.reachable.trans hsecond.reachable)
  exact ⟨hmoves, honward, hrest, st, hops, next, link, hs, hget, hdist honward⟩

/-- The connections of eleven servers, of which 3 stands on three rings. -/
def threeRings : List (Id × Id) :=
  [(1, 2), (2, 3), (3, 4), (4, 5), (5, 3), (3, 6), (6, 7), (7, 3), (7, 8), (8, 9), (9, 2), (6, 10),
    (10, 11), (11, 5)]

/-- Server 1 announces itself, and server 3 hears of it by a long way first. Its answer goes around
two of the rings, because the route to 1 gets shorter each time that it comes back, and in the end
the answer leaves for server 2 with server 7 at the end of its path. -/
def roundTrip : List Move :=
  announcement 1 ::
    ([0, 1, 1, 2, 4, 13, 18, 24, 24, 32, 8, 45, 43, 55, 55, 0, 59, 54, 64, 66, 66].map .deliver)

/-- From then on server 2 takes server 7 for a neighbour, whatever arrives. -/
theorem round_trip_shortens :
    let new := Mesh.new [1, 2, 3, 4, 5, 6, 7, 8, 9, 10, 11] {} [] false
    let m := new.play (connections threeRings)
    let late := m.play roundTrip
    new.Obeys Admits (connections threeRings) ∧ m.Obeys Discovers roundTrip ∧
      ¬ m.graph.Adj 2 7 ∧
      ∀ moves, late.Obeys Discovers moves → (late.play moves).Knows 2 7 1 := by
  intro new m late
  have hlinks : new.Obeys Admits (connections threeRings) := by decide +kernel
  have htrip : m.Obeys Discovers roundTrip := by decide +kernel
  have hto : ¬ m.Linked 2 7 := by decide +kernel
  have hback : ¬ m.Linked 7 2 := by decide +kernel
  have hroute : (late.server? 2).bind (·.routes.get? 7) = some ⟨.server 1 7, 1⟩ := by
    decide +kernel
  refine ⟨hlinks, htrip, fun hadj => (graph_adj.1 hadj).2.elim hto hback, fun moves hmoves => ?_⟩
  obtain ⟨server, hserver, hget⟩ := Option.bind_eq_some_iff.1 hroute
  obtain ⟨st, hs, rfl⟩ := Option.map_eq_some_iff.1 hserver
  have hcalm := (calm_connections (calm_new _ _) (sound_new _ _ [] false) hlinks).1
  have hgrown := (hcalm.play htrip).1.toSane.play (hmoves.mono fun _ _ => admits_of_discovers)
  exact hgrown.extended.knows 2 7 1 ⟨st, hs, 1, 7, 1, hget, Nat.le_refl 1⟩

end Mesh

end RelayMesh
