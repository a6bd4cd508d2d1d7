import RelayMesh.Proofs.Chat.Relay
import RelayMesh.Proofs.Mesh.Calm

namespace RelayMesh

/-- The chat in some frames. -/
def chats (frames : List Frame) : List Message := frames.filterMap Frame.chat?

@[simp] theorem chats_append (l r : List Frame) : chats (l ++ r) = chats l ++ chats r :=
  List.filterMap_append

theorem chats_plain {frames : List Frame} (h : ∀ f ∈ frames, f.Plain) : chats frames = [] :=
  List.filterMap_eq_nil_iff.2 fun f hf => (h f hf).chat

theorem chats_replicate {f : Frame} {msg : Message} (h : f.chat? = some msg) (n : Nat) :
    chats (List.replicate n f) = List.replicate n msg := by
  induction n with
  | zero => rfl
  | succ n ih =>
    rw [List.replicate_succ, List.replicate_succ, ← ih]
    simp [chats, h]

namespace Station

variable {st : Station} {id peer : Id} {line : Line}

theorem queueTo_eq_nil (h : ∀ line ∈ st.lines, line.peer ≠ some peer) : st.queueTo peer = [] := by
  unfold queueTo lineTo?
  rw [List.find?_eq_none.2 fun line hl => by simpa using h line hl]

/-- A server that leaves chat alone puts plain frames into its queues. -/
theorem queueTo_hush {s : Server} (h : st.server.Hush s) (peer : Id) : ∃ frames,
    ({ st with server := s } : Station).queueTo peer = st.queueTo peer ++ frames ∧
      ∀ f ∈ frames, f.Plain := by
  unfold queueTo
  rw [show ({ st with server := s } : Station).lineTo? peer = st.lineTo? peer from rfl]
  cases st.lineTo? peer with
  | none => exact ⟨[], rfl, by simp⟩
  | some line => exact h.outbox.queues line.link

/-- What is drained from a connection and what still waits there is what waited there. -/
theorem waiting_drainLines (s : Server) (lines : List Line) (link : LinkId) :
    ((drainLines s lines).2.filter (·.1.link = link)).map (·.2) ++
      (drainLines s lines).1.outbox.waiting link = s.outbox.waiting link := by
  induction lines generalizing s with
  | nil => rfl
  | cons line lines ih =>
    rw [drainLines]
    split
    · exact ih s
    · have hrest := ih { s with outbox := (s.outbox.drain line.link).1 }
      rw [Outbox.waiting_drain] at hrest
      dsimp only
      rw [List.filter_append, List.map_append, List.append_assoc, hrest, Outbox.drained]
      by_cases hl : link = line.link
      · subst hl
        simp [List.filter_map, Function.comp_def]
      · simp [hl, Ne.symm hl, List.filter_map, Function.comp_def]

end Station

namespace Mesh

/-- The frames on the wire from `u` to `v`. -/
def onWire (m : Mesh) (u v : Id) : List Frame :=
  (m.wire.filter fun t => t.source = u ∧ t.target = v).map (·.frame)

/-- The frames on their way from `u` to `v`, the oldest first. -/
def channel (m : Mesh) (u v : Id) : List Frame :=
  m.onWire u v ++ (m.station? u).elim [] (·.queueTo v)

/-- What waits on a connection of `u`. -/
def letters (m : Mesh) (u : Id) (link : LinkId) : List Frame :=
  (m.station? u).elim [] (·.server.outbox.waiting link)

/-- The newest line of `b` that the server `u` has given to its clients. -/
def last (m : Mesh) (u b : Id) : Option Nat :=
  (m.station? u).bind (·.server.routes.lastChat.get? b)

/-- The client `c` is reached over a connection of `u`. -/
def Seat (m : Mesh) (u c : Id) (link : LinkId) : Prop :=
  ∃ st, m.station? u = some st ∧ st.server.routes.get? c = some ⟨.client, link⟩

theorem Sane.not_isSome_of_seat {m : Mesh} (h : m.Sane) {u c : Id} {link : LinkId}
    (hc : m.Seat u c link) : ¬ (m.station? c).isSome := by
  obtain ⟨st, hs, hget⟩ := hc
  exact fun hsome => h.nobody u st c hs hsome ⟨link, hget⟩

def Honest (m : Mesh) : Prop := ∀ u v, ∀ f ∈ m.channel u v, f.Honest

/-- There is no chat anywhere. -/
structure Plain (m : Mesh) : Prop where
  wire : ∀ t ∈ m.wire, t.frame.Plain
  letters : ∀ u link, ∀ f ∈ m.letters u link, f.Plain

/-- The frames of a report for a connection of `u`. -/
def sentOver (sent : List Sending) (u : Id) (link : LinkId) : List Frame :=
  (sent.filter fun s => s.source = u ∧ s.line.link = link).map (·.frame)

/-- The servers have their connections and clients, and have recorded the same lines. -/
structure Keeps (m m' : Mesh) : Prop where
  still : m.Still m'
  last : ∀ u b, m'.last u b = m.last u b
  seat : ∀ u c link, m'.Seat u c link ↔ m.Seat u c link

/-- Nothing has happened that has to do with chat. -/
structure Hush (m m' : Mesh) : Prop extends Keeps m m' where
  chats : ∀ u v, chats (m'.channel u v) = chats (m.channel u v)
  letters : ∀ u link, RelayMesh.chats (m'.letters u link) = RelayMesh.chats (m.letters u link)
  honest : m.Honest → m'.Honest
  plain : m.Plain → m'.Plain

/-- The frames in `sent` have left their queues. -/
structure Gathers (m m' : Mesh) (sent : List Sending) : Prop extends Keeps m m' where
  channel : ∀ u v, m'.channel u v = m.channel u v
  letters : ∀ u link, m.letters u link = sentOver sent u link ++ m'.letters u link

variable {m m' m'' : Mesh} {u v b c : Id} {st : Station} {sent sent' : List Sending}

theorem Keeps.trans (h : m.Keeps m') (h' : m'.Keeps m'') : m.Keeps m'' :=
  ⟨h.still.trans h'.still, fun u b => (h'.last u b).trans (h.last u b),
    fun u c link => (h'.seat u c link).trans (h.seat u c link)⟩

theorem hush_refl (m : Mesh) : m.Hush m :=
  ⟨⟨m.still_refl, fun _ _ => rfl, fun _ _ _ => Iff.rfl⟩, fun _ _ => rfl, fun _ _ => rfl, id, id⟩

theorem Hush.trans (h : m.Hush m') (h' : m'.Hush m'') : m.Hush m'' :=
  ⟨h.toKeeps.trans h'.toKeeps, fun u v => (h'.chats u v).trans (h.chats u v),
    fun u link => (h'.letters u link).trans (h.letters u link), fun hh => h'.honest (h.honest hh),
    fun hp => h'.plain (h.plain hp)⟩

/-- A frame between servers is on the wire, or it waits on a connection. -/
theorem mem_channel {f : Frame} (hf : f ∈ m.channel u v) :
    (∃ t ∈ m.wire, t.frame = f) ∨ ∃ link, f ∈ m.letters u link := by
  rcases List.mem_append.1 hf with hwire | hqueue
  · obtain ⟨t, ht, hframe⟩ := List.mem_map.1 hwire
    exact .inl ⟨t, (List.mem_filter.1 ht).1, hframe⟩
  · right
    unfold letters
    cases hs : m.station? u with
    | none =>
      rw [hs] at hqueue
      exact absurd hqueue List.not_mem_nil
    | some st =>
      rw [hs, Option.elim_some, Station.queueTo] at hqueue
      split at hqueue
      · exact absurd hqueue List.not_mem_nil
      next line _ => exact ⟨line.link, hqueue⟩

theorem Plain.channel (h : m.Plain) (u v : Id) : ∀ f ∈ m.channel u v, f.Plain := by
  intro f hf
  rcases mem_channel hf with ⟨t, ht, rfl⟩ | ⟨link, hf⟩
  · exact h.wire t ht
  · exact h.letters u link f hf

theorem Gathers.plain (h : m.Gathers m' sent) (hp : m.Plain) : m'.Plain := by
  constructor
  · intro t ht
    have hmem : t.frame ∈ m'.channel t.source t.target :=
      List.mem_append_left _ (List.mem_map.2 ⟨t, List.mem_filter.2 ⟨ht, by simp⟩, rfl⟩)
    rw [h.channel] at hmem
    exact hp.channel _ _ _ hmem
  · intro u link f hf
    exact hp.letters u link f (by rw [h.letters]; exact List.mem_append_right _ hf)

theorem gathers_refl (m : Mesh) : m.Gathers m [] :=
  ⟨m.hush_refl.toKeeps, fun _ _ => rfl, fun _ _ => rfl⟩

theorem Gathers.trans (h : m.Gathers m' sent) (h' : m'.Gathers m'' sent') :
    m.Gathers m'' (sent ++ sent') := by
  refine ⟨h.toKeeps.trans h'.toKeeps, fun u v => (h'.channel u v).trans (h.channel u v),
    fun u link => ?_⟩
  rw [h.letters, h'.letters, sentOver, sentOver, sentOver, List.filter_append, List.map_append,
    List.append_assoc]

/-- Every server has kept its connections and done nothing that has to do with chat. -/
theorem hush_of_stations (hw : m'.wire = m.wire) (hh : m'.hooks = m.hooks)
    (hwait : m'.waiting = m.waiting)
    (hst : ∀ u, (m.station? u = none ∧ m'.station? u = none) ∨ ∃ st s, m.station? u = some st ∧
      m'.station? u = some { st with server := s } ∧ st.server.Hush s) : m.Hush m' := by
  have hchannel (u v : Id) : ∃ frames, m'.channel u v = m.channel u v ++ frames ∧
      ∀ f ∈ frames, f.Plain := by
    rw [channel, channel, onWire, onWire, hw]
    rcases hst u with ⟨h, h'⟩ | ⟨st, s, h, h', hs⟩
    · exact ⟨[], by simp [h, h'], by simp⟩
    · obtain ⟨frames, hq, hplain⟩ := Station.queueTo_hush hs v
      exact ⟨frames, by simp [h, h', hq], hplain⟩
  refine ⟨⟨⟨hh, hwait, fun u => ?_⟩, fun u b => ?_, fun u c link => ?_⟩, fun u v => ?_,
    fun u link => ?_, fun hhonest u v f hf => ?_, fun hplain => ⟨by rw [hw]; exact hplain.wire,
      fun u link f hf => ?_⟩⟩
  · rcases hst u with ⟨h, h'⟩ | ⟨st, s, h, h', hs⟩
    · rw [h, h']
    · simp [h, h', Station.outfit, hs.config, hs.down]
  · rcases hst u with ⟨h, h'⟩ | ⟨st, s, h, h', hs⟩
    · rw [last, last, h, h']
    · simp [last, h, h', hs.lastChat]
  · rcases hst u with ⟨h, h'⟩ | ⟨st, s, h, h', hs⟩
    · simp [Seat, h, h']
    · simp [Seat, h, h', hs.clients]
  · obtain ⟨frames, hq, hplain⟩ := hchannel u v
    rw [hq, chats_append, chats_plain hplain, List.append_nil]
  · rcases hst u with ⟨h, h'⟩ | ⟨st, s, h, h', hs⟩
    · rw [letters, letters, h, h']
    · obtain ⟨frames, hq, hplain⟩ := hs.outbox.queues link
      simp [letters, h, h', hq, chats_plain hplain]
  · obtain ⟨frames, hq, hplain⟩ := hchannel u v
    rw [hq] at hf
    rcases List.mem_append.1 hf with hold | hnew
    · exact hhonest u v f hold
    · exact (hplain f hnew).honest
  · rcases hst u with ⟨h, h'⟩ | ⟨st, s, h, h', hs⟩
    · exact hplain.letters u link f (by rwa [letters, h, ← h'])
    · obtain ⟨frames, hq, hnew⟩ := hs.outbox.queues link
      rw [letters, h', Option.elim_some, hq] at hf
      rcases List.mem_append.1 hf with hold | hf
      · exact hplain.letters u link f (by rwa [letters, h])
      · exact hnew f hf

theorem hush_set (hs : m.station? u = some st) {s : Server} (h : st.server.Hush s) :
    m.Hush (m.set u { st with server := s }) := by
  refine hush_of_stations rfl rfl rfl fun w => ?_
  by_cases hw : w = u
  · subst hw
    exact .inr ⟨st, s, hs, station?_set_self, h⟩
  · rw [station?_set_ne hw]
    cases hst : m.station? w with
    | none => exact .inl ⟨rfl, rfl⟩
    | some st => exact .inr ⟨st, st.server, rfl, rfl, Server.hush_refl _⟩

theorem hush_updateAll (m : Mesh) {change : Server → Server} (h : ∀ s : Server, s.Hush (change s)) :
    m.Hush (m.updateAll change) := by
  refine hush_of_stations rfl rfl rfl fun u => ?_
  rw [station?_updateAll]
  cases hst : m.station? u with
  | none => exact .inl ⟨rfl, rfl⟩
  | some st => exact .inr ⟨st, _, rfl, rfl, h st.server⟩

section Collect

theorem filter_transits (u w v : Id) (sent : List (Line × Frame)) :
    ((sent.filterMap fun b => b.1.peer.map fun peer => (⟨u, peer, b.2⟩ : Transit)).filter
      fun t => t.source = w ∧ t.target = v).map (·.frame) =
        if w = u then (sent.filter (·.1.peer = some v)).map (·.2) else [] := by
  induction sent with
  | nil => simp
  | cons b sent ih =>
    rw [List.filterMap_cons]
    cases hpeer : b.1.peer with
    | none => simpa [hpeer] using ih
    | some peer =>
      simp only [Option.map_some, List.filter_cons, hpeer, Option.some.injEq, decide_eq_true_eq]
      by_cases hw : w = u
      · subst hw
        simp only [if_true, true_and] at ih ⊢
        by_cases hv : peer = v
        · simp only [if_pos hv, List.map_cons, ih]
        · simp only [if_neg hv, ih]
      · simp only [if_neg hw] at ih ⊢
        rw [if_neg fun h => hw h.1.symm, ih]

/-- What leaves a station for a server is what leaves the queue of the connection to it. -/
theorem drain_queueTo (hw : st.Wired u) (v : Id) :
    (st.drain.2.filter (·.1.peer = some v)).map (·.2) ++ st.drain.1.queueTo v = st.queueTo v := by
  have hlines (b : Line × Frame) (hb : b ∈ st.drain.2) : b.1 ∈ st.lines :=
    (Station.waiting_of_mem_drainLines hb).1
  by_cases hline : ∃ line ∈ st.lines, line.peer = some v
  · obtain ⟨line, hl, hpeer⟩ := hline
    have hfilter : st.drain.2.filter (·.1.peer = some v) =
        st.drain.2.filter (·.1.link = line.link) := by
      refine List.filter_congr fun b hb => decide_eq_decide.2 ⟨fun h => ?_, fun h => ?_⟩
      · rw [hw.eq_of_peer (hlines b hb) hl h hpeer]
      · rw [hw.eq_of_link (hlines b hb) hl h, hpeer]
    have hto : st.lineTo? v = some line := hw.lineTo?_iff.2 ⟨hl, hpeer⟩
    have hto' : st.drain.1.lineTo? v = some line := hto
    rw [hfilter, Station.queueTo, Station.queueTo, hto, hto']
    exact Station.waiting_drainLines st.server st.lines line.link
  · have hnone : ∀ line ∈ st.lines, line.peer ≠ some v := fun line hl hpeer =>
      hline ⟨line, hl, hpeer⟩
    have hnone' : ∀ line ∈ st.drain.1.lines, line.peer ≠ some v := hnone
    have hfilter : st.drain.2.filter (·.1.peer = some v) = [] :=
      List.filter_eq_nil_iff.2 fun b hb => by simpa using hnone b.1 (hlines b hb)
    rw [hfilter, Station.queueTo_eq_nil hnone, Station.queueTo_eq_nil hnone']
    rfl

theorem onWire_collectAt (hs : m.station? u = some st) (w v : Id) :
    (m.collectAt u).1.onWire w v =
      m.onWire w v ++ if w = u then (st.drain.2.filter (·.1.peer = some v)).map (·.2) else [] := by
  rw [collectAt_eq hs, onWire, List.filter_append, List.map_append, filter_transits]
  rfl

theorem sentOver_collectAt (hs : m.station? u = some st) (w : Id) (link : LinkId) :
    sentOver (m.collectAt u).2 w link =
      if w = u then (st.drain.2.filter (·.1.link = link)).map (·.2) else [] := by
  rw [collectAt_eq hs, sentOver]
  by_cases hw : w = u
  · simp [hw, List.filter_map, Function.comp_def]
  · simp [hw, Ne.symm hw, List.filter_map, Function.comp_def]

theorem gathers_collectAt (h : m.Sane) (id : Id) :
    m.Gathers (m.collectAt id).1 (m.collectAt id).2 := by
  have hcollect := collects_collectAt h.orderly id
  have hstill := hcollect.alike.still hcollect.hooks hcollect.waiting
  cases hs : m.station? id with
  | none =>
    have hsame : m.collectAt id = (m, []) := by simp only [collectAt, hs]
    rw [hsame]
    exact m.gathers_refl
  | some st =>
    have hstation := station?_collectAt hs
    obtain ⟨outbox, hserver, -, -⟩ := Station.exists_drainLines st.server st.lines
    have hdrain : st.drain.1 = { st with server := { st.server with outbox } } := by
      simp only [Station.drain, hserver]
    refine ⟨⟨hstill, fun u b => ?_, fun u c link => ?_⟩, fun u v => ?_, fun u link => ?_⟩
    · by_cases hu : u = id
      · simp [last, hstation, hu, hs, hdrain]
      · simp [last, hstation, hu]
    · by_cases hu : u = id
      · simp [Seat, hstation, hu, hs, hdrain]
      · simp [Seat, hstation, hu]
    · rw [channel, channel, onWire_collectAt hs, hstation]
      by_cases hu : u = id
      · subst hu
        simp only [if_true, hs, Option.elim_some, List.append_assoc,
          drain_queueTo (h.wired u st hs) v]
      · simp only [if_neg hu, List.append_nil]
    · rw [letters, letters, sentOver_collectAt hs, hstation]
      by_cases hu : u = id
      · subst hu
        simp only [if_true, hs, Option.elim_some]
        exact (Station.waiting_drainLines st.server st.lines link).symm
      · simp only [if_neg hu, List.nil_append]

theorem gathers_collectEach (h : m.Sane) (ids : List Id) :
    m.Gathers (m.collectEach ids).1 (m.collectEach ids).2 := by
  induction ids generalizing m with
  | nil => exact m.gathers_refl
  | cons id ids ih =>
    have first := gathers_collectAt h id
    have hsane := (h.alike (collects_collectAt h.orderly id).alike).sane
    exact first.trans (ih hsane)

/-- Timers go off, and then the queues are emptied. -/
theorem Calm.settles {servers : List Id} {config : Config} (h : m.Calm servers config) :
    ∃ m', m.Hush m' ∧ m'.Gathers m.settle.1 m.settle.2.sent := by
  have hexpire : m.Hush m.expire := m.hush_updateAll Server.hush_expire
  have hsane := (h.toSane.alike (posts_expire (fun _ _ => True) m).alike).sane
  have hgather := gathers_collectEach hsane m.expire.stations.keys
  have hnone : m.collect.1.waiting.length = 0 := by
    rw [h.toSane.still_collect.waiting, h.waiting]
    rfl
  have hsettle : m.settle = ((m.collect.1.giveReady m.collect.1.waiting.length).1,
      { (m.collect.1.giveReady m.collect.1.waiting.length).2 with
        sent := m.collect.2 ++ (m.collect.1.giveReady m.collect.1.waiting.length).2.sent }) := rfl
  rw [hsettle, hnone]
  refine ⟨m.expire, hexpire, ?_⟩
  show m.expire.Gathers m.collect.1 (m.collect.2 ++ [])
  rw [List.append_nil]
  exact hgather

end Collect

end Mesh

end RelayMesh
