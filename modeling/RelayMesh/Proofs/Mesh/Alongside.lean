import RelayMesh.Proofs.Mesh.Outsiders
import RelayMesh.Proofs.Mesh.Traces

namespace RelayMesh

/-- When both lose a frame, the rest agrees as before. -/
theorem perm_filter_of_cons {α : Type} {p : α → Bool} {a : α} {l l' rest rest' : List α}
    (h : (a :: rest).Perm l) (h' : (a :: rest').Perm l') (hl : (l.filter p).Perm (l'.filter p)) :
    (rest.filter p).Perm (rest'.filter p) := by
  have hboth := ((h.filter p).trans hl).trans (h'.filter p).symm
  rw [List.filter_cons, List.filter_cons] at hboth
  split at hboth
  · exact hboth.cons_inv
  · exact hboth

namespace Mesh

variable {m m' : Mesh} {id : Id} {st : Station} {link : LinkId} {f : Frame} {t : Transit}

/-- Nothing waits in any queue. -/
def Clear (m : Mesh) : Prop :=
  ∀ b ∈ m.stations.toList, ∀ q ∈ b.2.server.outbox.toList, q.2.frames = []

instance (m : Mesh) : Decidable m.Clear :=
  inferInstanceAs (Decidable (∀ b ∈ m.stations.toList, ∀ q ∈ b.2.server.outbox.toList, _))

/-- No timer is due. -/
def NoneDue (m : Mesh) : Prop :=
  ∀ id st, m.station? id = some st → ∀ timer ∈ st.server.timers, st.server.clock < timer.due

theorem Clear.waiting (h : m.Clear) (hs : m.station? id = some st) (link : LinkId) :
    st.server.outbox.waiting link = [] := by
  unfold Outbox.waiting
  cases hq : st.server.outbox.get? link with
  | none => rfl
  | some queue =>
    exact h (id, st) ((m.stations.mem_toList_iff).2 hs) (link, queue)
      ((SortedMap.mem_toList_iff _).2 hq)

/-- If nothing waits, then there are no other traces of chat than the records. -/
theorem Clear.stripped (h : m.Clear) : m.stripped = m.core := by
  unfold Mesh.stripped core
  congr 1
  refine SortedMap.ext_get? fun id => ?_
  simp only [SortedMap.get?_mapValues]
  exact Option.map_congr fun st hs => Station.stripped_eq_forget (h.waiting hs)

theorem Clear.collectEach (h : m.Clear) (ids : List Id) : (m.collectEach ids).1 = m := by
  induction ids with
  | nil => rfl
  | cons id ids ih =>
    have hfirst : (m.collectAt id).1 = m := by
      cases hs : m.station? id with
      | none => rw [collectAt_none hs]
      | some st =>
        rw [collectAt_eq hs, Station.drain_eq_self (h.waiting hs)]
        simp [set_self hs]
    rw [Mesh.collectEach]
    dsimp only
    rw [hfirst, ih]

theorem NoneDue.expire (h : m.NoneDue) : m.expire = m :=
  updateAll_eq fun id st hs => Server.expire_of_not_due (h id st hs)

theorem NoneDue.of_stripped (h : m.NoneDue) (he : m'.stripped = m.stripped) : m'.NoneDue := by
  intro id st' hs' timer ht
  have hstations := congrArg (·.station? id) he
  simp only [station?_stripped, hs', Option.map_some] at hstations
  obtain ⟨st, hs, hst⟩ := Option.map_eq_some_iff.1 hstations.symm
  have htimers : st.server.timers = st'.server.timers := congrArg (·.server.timers) hst
  have hclock : st.server.clock = st'.server.clock := congrArg (·.server.clock) hst
  rw [← hclock]
  exact h id st hs timer (htimers ▸ ht)

theorem NoneDue.set (h : m.NoneDue) {st' : Station}
    (hst : ∀ timer ∈ st'.server.timers, st'.server.clock < timer.due) : (m.set id st').NoneDue := by
  intro other new hnew
  rw [station?_set] at hnew
  split at hnew
  · obtain rfl := Option.some.inj hnew
    exact hst
  · exact h other new hnew

theorem NoneDue.heeding (h : m.NoneDue) (id : Id) (link : LinkId) (f : Frame) :
    (m.updateServer id (·.heeding link f)).NoneDue := by
  unfold updateServer update
  split
  next st hs =>
    obtain ⟨htimers, hclock⟩ := st.server.due_heeding link f
    refine h.set fun timer ht => ?_
    dsimp only at ht ⊢
    rw [htimers] at ht
    rw [hclock]
    exact h id st hs timer ht
  next => exact h

theorem NoneDue.heed (h : m.NoneDue) (t : Transit) : (m.heed t).NoneDue := by
  unfold Mesh.heed
  split
  · exact h
  next line _ => exact h.heeding t.target line.link t.frame

theorem NoneDue.heedAt (h : m.NoneDue) (id : Id) (label : String) (options : QueueOptions)
    (f : Frame) : (m.heedAt id label options f).NoneDue := by
  unfold Mesh.heedAt update
  cases hs : m.station? id with
  | none => exact h
  | some st =>
    have hobtain : (st.obtain label options.capacity options.held).1.server.timers =
        st.server.timers ∧
          (st.obtain label options.capacity options.held).1.server.clock = st.server.clock := by
      unfold Station.obtain
      split <;> exact ⟨rfl, rfl⟩
    refine h.set fun timer ht => ?_
    obtain ⟨htimers, hclock⟩ := Server.due_heeding
      (st.obtain label options.capacity options.held).1.server
      (st.obtain label options.capacity options.held).2 f
    dsimp only at ht ⊢
    rw [htimers, hobtain.1] at ht
    rw [hclock, hobtain.2]
    exact h id st hs timer ht

/-- Two overlays differ by traces of chat at most. -/
structure Level (m m' : Mesh) : Prop where
  stripped : m.stripped = m'.stripped
  wire : (m.wire.filter (·.frame.isControl)).Perm (m'.wire.filter (·.frame.isControl))

theorem Level.core (h : m.Level m') (hm : m.Clear) (hm' : m'.Clear) : m.core = m'.core := by
  rw [← hm.stripped, h.stripped, hm'.stripped]

theorem Level.station? (h : m.Level m') (id : Id) :
    (m.station? id).map Station.stripped = (m'.station? id).map Station.stripped := by
  rw [← station?_stripped, h.stripped, station?_stripped]

theorem Level.collectAt (h : m.Level m') (id : Id) :
    (m.collectAt id).1.Level (m'.collectAt id).1 := by
  have hstation := h.station? id
  cases hs : m.station? id with
  | none =>
    rw [hs] at hstation
    rw [collectAt_none hs, collectAt_none (Option.map_eq_none_iff.1 hstation.symm)]
    exact h
  | some st =>
    rw [hs, Option.map_some] at hstation
    obtain ⟨st', hs', hst⟩ := Option.map_eq_some_iff.1 hstation.symm
    have hdrain : (st.drain.1.stripped, st.drain.2.filter (·.2.isControl)) =
        (st'.drain.1.stripped, st'.drain.2.filter (·.2.isControl)) := by
      rw [← Station.drain_stripped, ← Station.drain_stripped, hst]
    have hfilter (sent : List (Line × Frame)) :
        (sent.filterMap fun b => b.1.peer.map fun peer => (⟨id, peer, b.2⟩ : Transit)).filter
            (·.frame.isControl) =
          (sent.filter (·.2.isControl)).filterMap fun b =>
            b.1.peer.map fun peer => (⟨id, peer, b.2⟩ : Transit) := by
      induction sent with
      | nil => rfl
      | cons b sent ih =>
        cases hp : b.1.peer <;> cases hc : b.2.isControl <;> simp [hp, hc, ih]
    obtain ⟨hdrained, hsent⟩ := Prod.mk.inj hdrain
    rw [collectAt_eq hs, collectAt_eq hs']
    constructor
    · have hset : (m.set id st.drain.1).stripped = (m'.set id st'.drain.1).stripped := by
        rw [← set_stripped, ← set_stripped, h.stripped, hdrained]
      exact hset
    · dsimp only
      rw [List.filter_append, List.filter_append, hfilter, hfilter]
      exact h.wire.append (.of_eq (congrArg _ hsent))

theorem Level.collectEach (h : m.Level m') (ids : List Id) :
    (m.collectEach ids).1.Level (m'.collectEach ids).1 := by
  induction ids generalizing m m' with
  | nil => exact h
  | cons id ids ih => exact ih (h.collectAt id)

theorem Level.collect (h : m.expire.Level m'.expire) : m.collect.1.Level m'.collect.1 := by
  have hkeys (m : Mesh) : m.stations.keys = m.stripped.stations.keys := by
    simp [Mesh.stripped, SortedMap.keys, SortedMap.mapValues]
  have hsame : m.expire.stations.keys = m'.expire.stations.keys := by
    rw [hkeys, h.stripped, ← hkeys]
  unfold Mesh.collect
  dsimp only
  rw [hsame]
  exact h.collectEach _

/-- What both have done without a frame from the wire and without chat, both still have. -/
theorem Level.of_core (h : m.core = m'.core)
    (hw : (m.wire.filter (·.frame.isControl)).Perm (m'.wire.filter (·.frame.isControl))) :
    m.expire.Level m'.expire := by
  refine ⟨stripped_eq_of_core ?_, hw⟩
  have hexpire (m : Mesh) : m.expire.core = m.core.expire :=
    (m.updateAll_core Server.expire_forget).symm
  rw [hexpire, h, hexpire]

/-- If only the path of a frame for clients has been heeded, then no timer goes off. -/
theorem Level.of_traces {n n' : Mesh} (hm : m.stripped = n.stripped)
    (hm' : m'.stripped = n'.stripped) (hn : n.core = n'.core) (hdue : n.NoneDue) (hdue' : n'.NoneDue)
    (hw : (m.wire.filter (·.frame.isControl)).Perm (m'.wire.filter (·.frame.isControl))) :
    m.expire.Level m'.expire := by
  rw [(hdue.of_stripped hm).expire, (hdue'.of_stripped hm').expire]
  exact ⟨hm.trans ((stripped_eq_of_core hn).trans hm'.symm), hw⟩

/-- The same move has the same effect on overlays that differ by traces of chat only. -/
theorem Level.effect (h : m.core = m'.core) (hdue : m.NoneDue) (hdue' : m'.NoneDue)
    (hw : (m.wire.filter (·.frame.isControl)).Perm (m'.wire.filter (·.frame.isControl)))
    {mv : Move} (hmv : mv.OffWire) : (m.effect mv).expire.Level (m'.effect mv).expire := by
  have hwire : ((m.effect mv).wire.filter (·.frame.isControl)).Perm
      ((m'.effect mv).wire.filter (·.frame.isControl)) := by
    obtain ⟨p, hp⟩ := wire_effect hmv
    rw [hp, hp, List.filter_comm, List.filter_comm _ p]
    exact hw.filter p
  cases mv with
  | join a b =>
    refine .of_core ?_ hwire
    have hjoin : (m.join a b).core = (m'.join a b).core := by rw [← join_core, h, join_core]
    exact hjoin
  | deliver place => exact hmv.elim
  | step s =>
    by_cases hs : ∀ id label options f, s = .at id (.frame label options f) → f.isControl = true
    · refine .of_core ?_ hwire
      rw [← effect_core hmv hs, h, effect_core hmv hs]
    · simp only [not_forall, Bool.not_eq_true] at hs
      obtain ⟨id, label, options, f, rfl, hf⟩ := hs
      refine .of_traces (stripped_effect_frame id label options m hf)
        (stripped_effect_frame id label options m' hf) ?_ (hdue.heedAt id label options f)
        (hdue'.heedAt id label options f) hwire
      rw [← heedAt_core, h, heedAt_core]

/-- The same frame has the same effect, apart from chat. -/
theorem Level.deliver (h : m.core = m'.core) (hdue : m.NoneDue) (hdue' : m'.NoneDue)
    (hw : (m.wire.filter (·.frame.isControl)).Perm (m'.wire.filter (·.frame.isControl)))
    (t : Transit) : (m.deliver t).expire.Level (m'.deliver t).expire := by
  rw [← m.wire_deliver t, ← m'.wire_deliver t] at hw
  cases hf : t.frame.isControl with
  | true =>
    refine .of_core ?_ hw
    rw [← deliver_core m hf, h, deliver_core m' hf]
  | false =>
    refine .of_traces (m.stripped_deliver hf) (m'.stripped_deliver hf) ?_ (hdue.heed t)
      (hdue'.heed t) hw
    rw [← heed_core, h, heed_core]

/-- The same happens in two overlays. -/
inductive Common (m m' : Mesh) : Event → Event → Prop
  | move {mv : Move} (h : mv.OffWire) : Common m m' (.move mv) (.move mv)
  | arrive {mv mv' : Move} {t : Transit} (h : m.taken? mv = some t) (h' : m'.taken? mv' = some t) :
      Common m m' (.move mv) (.move mv')
  | lose {k k' : Nat} {t : Transit} (h : (m.take k).map (·.1) = some t)
      (h' : (m'.take k').map (·.1) = some t) :
      Common m m' (.move (.step (.lose k))) (.move (.step (.lose k')))
  | give (w : Withheld) : Common m m' (.give w) (.give w)

theorem give_core (m : Mesh) (w : Withheld) :
    m.core.occur (.give w) = (m.occur (.give w)).core := by
  have hreleased (m : Mesh) : m.core.updateServer w.interceptor.owner (·.release w) =
      (m.updateServer w.interceptor.owner (·.release w)).core :=
    m.updateServer_core _ fun s => s.release_forget w
  exact hreleased { m with waiting := m.waiting.erase w }

theorem Level.occur (h : m.Level m') (hm : m.Clear) (hm' : m'.Clear) (hdue : m.NoneDue)
    (hdue' : m'.NoneDue) {e e' : Event} (he : m.Common m' e e') :
    (m.occur e).expire.Level (m'.occur e').expire := by
  have hcore := h.core hm hm'
  cases he with
  | move hmv => exact .effect hcore hdue hdue' h.wire hmv
  | @arrive mv mv' t ht ht' =>
    obtain ⟨wire, hperm, he⟩ := exists_of_taken ht
    obtain ⟨wire', hperm', he'⟩ := exists_of_taken ht'
    rw [Mesh.occur, Mesh.occur, he, he']
    have hcore' : ({ m with wire } : Mesh).core = ({ m' with wire := wire' } : Mesh).core := hcore
    exact Level.deliver hcore' hdue hdue' (perm_filter_of_cons hperm hperm' h.wire) t
  | @lose k k' t ht ht' =>
    obtain ⟨⟨_, rest⟩, htake, rfl⟩ := Option.map_eq_some_iff.1 ht
    obtain ⟨⟨_, rest'⟩, htake', rfl⟩ := Option.map_eq_some_iff.1 ht'
    obtain ⟨wire, hperm, rfl⟩ := exists_wire_of_take htake
    obtain ⟨wire', hperm', rfl⟩ := exists_wire_of_take htake'
    simp only [Mesh.occur, Mesh.effect, act, htake, htake', Option.map_some]
    exact .of_core hcore (perm_filter_of_cons hperm hperm' h.wire)
  | give w =>
    refine .of_core ?_ ?_
    · rw [← give_core, hcore, give_core]
    · simpa [Mesh.occur, updateServer] using h.wire

/-- The routes of all servers. -/
def routing (m : Mesh) : List (Id × IdMap Route) :=
  m.stations.toList.map fun b => (b.1, b.2.server.routes.entries)

/-- If chat has left traces only, then nothing else is sent, and both overlays are level still. -/
theorem Level.aside (h : m.Level m') (hclear : m'.Clear) (hdue : m.NoneDue) (hdue' : m'.NoneDue)
    {e : Event} (hoccur : (m.occur e).Level m) :
    (m.after e).Level m' ∧ ∀ t ∈ m.written e, t.frame.isControl = false := by
  have hlevel : (m.occur e).Level m' :=
    ⟨hoccur.stripped.trans h.stripped, hoccur.wire.trans h.wire⟩
  have hexpire : (m.occur e).expire = m.occur e := (hdue.of_stripped hoccur.stripped).expire
  have hsame : m'.collect.1 = m' := by
    unfold Mesh.collect
    rw [hdue'.expire]
    exact hclear.collectEach _
  have hafter : (m.after e).Level m' := by
    have hcollect : (m.occur e).collect.1.Level m'.collect.1 :=
      .collect (by rwa [hexpire, hdue'.expire])
    rwa [hsame] at hcollect
  refine ⟨hafter, fun t ht => ?_⟩
  obtain ⟨sent, hwire, -⟩ := (m.occur e).expire.wire_collectEach (m.occur e).expire.stations.keys
  have hwritten : (m.after e).wire = (m.occur e).wire ++ sent := hwire
  rw [written, hwritten, List.drop_left] at ht
  have hlength := hafter.wire.length_eq.trans hlevel.wire.length_eq.symm
  rw [hwritten, List.filter_append, List.length_append] at hlength
  have hnone : sent.filter (·.frame.isControl) = [] := List.length_eq_zero_iff.1 (by omega)
  simpa using List.filter_eq_nil_iff.1 hnone t ht

/-- Four servers are joined to a ring. The third one has become the leader before, and a client is
accepted by the first one. -/
def ring : List Move :=
  [.step (.at 3 (.command .elect)), .step (.at 2 (.start [1])), .step (.at 3 (.start [2])),
    .step (.at 4 (.start [3, 1])), .step (.at 1 (.client none {}))]

/-- This client says its first line, with a path of its choice. -/
def said (path : List Id) : Move := .step (.at 1 (.frame "100" {} (firstLine 100 path)))

/-- The sixth frame on the wire comes to its server. -/
def passed : Move := .deliver 5

/-- The first server asks for the token. -/
def request : Move := .step (.at 1 (.command .request))

/-- What the client says goes around the ring, over the fourth server first, with all that
follows. -/
def spread : List Move := said [] :: passed :: List.replicate 17 (.deliver 4)

/-- The first server loses its connection to the fourth one and asks for the token, which comes to it
over the second one. -/
def asked : List Move :=
  [.step (.cut 4 1), .step (.at 1 (.command .request)), .deliver 3, .deliver 3, .deliver 4,
    .deliver 5]

end Mesh

end RelayMesh
