import RelayMesh.Proofs.Mesh.Moves

namespace RelayMesh

/-- What is found first is what goes. -/
theorem eraseP_eq_erase {α : Type} [DecidableEq α] {p : α → Bool} {l : List α} {a : α}
    (h : l.find? p = some a) : l.eraseP p = l.erase a := by
  induction l with
  | nil => cases h
  | cons b l ih =>
    rw [List.find?_cons] at h
    split at h
    next hb =>
      cases h
      rw [List.eraseP_cons_of_pos hb, List.erase_cons_head]
    next hb =>
      have hne : b ≠ a := by
        rintro rfl
        rw [List.find?_some h] at hb
        cases hb
      rw [List.eraseP_cons_of_neg (by simp [hb]), List.erase_cons_tail (by simpa using hne), ih h]

namespace Station

/-- The same server with the same connections and routes. -/
structure Alike (st st' : Station) : Prop where
  identity : st'.server.identity = st.server.identity
  config : st'.server.config = st.server.config
  down : st'.server.down = st.server.down
  own : st'.server.routes.own = st.server.routes.own
  entries : st'.server.routes.entries = st.server.routes.entries
  lines : st'.lines = st.lines
  nextLink : st'.nextLink = st.nextLink

variable {st st' st'' : Station}

theorem alike_refl (st : Station) : st.Alike st := ⟨rfl, rfl, rfl, rfl, rfl, rfl, rfl⟩

theorem Alike.trans (h : st.Alike st') (h' : st'.Alike st'') : st.Alike st'' :=
  ⟨h'.identity.trans h.identity, h'.config.trans h.config, h'.down.trans h.down,
    h'.own.trans h.own, h'.entries.trans h.entries, h'.lines.trans h.lines,
    h'.nextLink.trans h.nextLink⟩

theorem Alike.get? (h : st.Alike st') (id : Id) :
    st'.server.routes.get? id = st.server.routes.get? id := by
  unfold Routes.get?
  rw [h.entries]

theorem Alike.symm (h : st.Alike st') : st'.Alike st :=
  ⟨h.identity.symm, h.config.symm, h.down.symm, h.own.symm, h.entries.symm, h.lines.symm,
    h.nextLink.symm⟩

theorem alike_of_sends {came : Option Message} {s : Server} (h : st.server.Sends came s) :
    st.Alike { st with server := s } :=
  ⟨h.identity, h.config, h.down, h.own, h.entries, rfl, rfl⟩

end Station

namespace Outbox

theorem waiting_drain (o : Outbox) (link other : LinkId) :
    (o.drain link).1.waiting other = if other = link then [] else o.waiting other := by
  unfold drain waiting
  cases h : o.get? link with
  | none =>
    by_cases ho : other = link
    · simp [ho, h]
    · simp [ho]
  | some queue =>
    simp only [SortedMap.get?_insert]
    by_cases ho : other = link <;> simp [ho]

theorem waiting_erase (o : Outbox) (link other : LinkId) :
    Outbox.waiting (SortedMap.erase o link) other = if other = link then [] else o.waiting other := by
  unfold waiting
  rw [SortedMap.get?_erase]
  by_cases h : other = link <;> simp [h]

theorem drained (o : Outbox) (link : LinkId) : (o.drain link).2 = o.waiting link := by
  unfold drain waiting
  cases o.get? link <;> rfl

theorem capacity_drain (o : Outbox) (link other : LinkId) :
    ((o.drain link).1.get? other).map (·.capacity) = (o.get? other).map (·.capacity) := by
  unfold drain
  cases h : o.get? link with
  | none => rfl
  | some queue =>
    simp only [SortedMap.get?_insert]
    by_cases ho : other = link
    · simp [ho, h]
    · simp [ho]

end Outbox

namespace Station

theorem exists_drainLines (s : Server) (lines : List Line) :
    ∃ outbox, (drainLines s lines).1 = { s with outbox } ∧
      (∀ link, outbox.waiting link =
        if ∃ line ∈ lines, line.held = false ∧ line.link = link then []
        else s.outbox.waiting link) ∧
      ∀ link, (outbox.get? link).map (·.capacity) = (s.outbox.get? link).map (·.capacity) := by
  induction lines generalizing s with
  | nil => exact ⟨s.outbox, rfl, fun link => by simp, fun _ => rfl⟩
  | cons line lines ih =>
    rw [drainLines]
    split
    next hheld =>
      obtain ⟨outbox, h, hw, hcap⟩ := ih s
      refine ⟨outbox, h, fun link => ?_, hcap⟩
      rw [hw]
      simp [hheld]
    next hheld =>
      obtain ⟨outbox, h, hw, hcap⟩ := ih { s with outbox := (s.outbox.drain line.link).1 }
      refine ⟨outbox, h, fun link => ?_, fun link => ?_⟩
      · rw [hw, Outbox.waiting_drain]
        by_cases hl : link = line.link
        · simp [hl, hheld]
        · have hne : ¬ line.link = link := fun he => hl he.symm
          simp [hl, hne]
      · rw [hcap]
        exact Outbox.capacity_drain s.outbox line.link link

theorem exists_drain (st : Station) :
    ∃ outbox, st.drain.1 = { st with server := { st.server with outbox } } ∧
      ∀ link, outbox.waiting link =
        if ∃ line ∈ st.lines, line.held = false ∧ line.link = link then []
        else st.server.outbox.waiting link := by
  obtain ⟨outbox, h, hw, -⟩ := exists_drainLines st.server st.lines
  exact ⟨outbox, by simp only [drain, h], hw⟩

/-- Whatever leaves a queue waited in it. -/
theorem waiting_of_mem_drainLines {s : Server} {lines : List Line} {line : Line} {f : Frame}
    (h : (line, f) ∈ (drainLines s lines).2) :
    line ∈ lines ∧ f ∈ s.outbox.waiting line.link := by
  induction lines generalizing s with
  | nil => simp [drainLines] at h
  | cons first lines ih =>
    rw [drainLines] at h
    split at h
    · obtain ⟨hmem, hw⟩ := ih h
      exact ⟨List.mem_cons_of_mem _ hmem, hw⟩
    · rcases List.mem_append.1 h with hfirst | hlater
      · obtain ⟨g, hg, heq⟩ := List.mem_map.1 hfirst
        rw [Outbox.drained] at hg
        cases heq
        exact ⟨List.mem_cons_self, hg⟩
      · obtain ⟨hmem, hw⟩ := ih hlater
        rw [Outbox.waiting_drain] at hw
        split at hw
        · simp at hw
        · exact ⟨List.mem_cons_of_mem _ hmem, hw⟩

/-- Whatever waits in a queue leaves it, or still waits there. -/
theorem mem_drainLines {s : Server} {lines : List Line} (hn : (lines.map (·.link)).Nodup)
    {line : Line} (hl : line ∈ lines) {f : Frame} (hf : f ∈ s.outbox.waiting line.link) :
    (line, f) ∈ (drainLines s lines).2 ∨
      f ∈ (drainLines s lines).1.outbox.waiting line.link := by
  induction lines generalizing s with
  | nil => simp at hl
  | cons first lines ih =>
    rw [List.map_cons, List.nodup_cons] at hn
    rw [drainLines]
    split
    next hheld =>
      rcases List.mem_cons.1 hl with rfl | hl
      · obtain ⟨outbox, h, hw, -⟩ := exists_drainLines s lines
        right
        rw [h, hw, if_neg]
        · exact hf
        · rintro ⟨other, hother, -, he⟩
          exact hn.1 (he ▸ List.mem_map_of_mem hother)
      · exact ih hn.2 hl hf
    next =>
      rcases List.mem_cons.1 hl with rfl | hl
      · left
        apply List.mem_append_left
        rw [Outbox.drained]
        exact List.mem_map_of_mem hf
      · have hne : line.link ≠ first.link := fun he =>
          hn.1 (he ▸ List.mem_map_of_mem hl)
        have hkept : f ∈ (s.outbox.drain first.link).1.waiting line.link := by
          rw [Outbox.waiting_drain, if_neg hne]
          exact hf
        exact (ih hn.2 hl hkept).imp_left (List.mem_append_right _)

/-- The station does nothing but send, while it handles a message that `ready` admits. -/
structure Posts (ready : Message → Prop) (st st' : Station) : Prop where
  sends : ∃ came, (∀ msg ∈ came, ready msg) ∧ st.server.Sends came st'.server
  lines : st'.lines = st.lines
  nextLink : st'.nextLink = st.nextLink

theorem Posts.alike {ready : Message → Prop} {st st' : Station} (h : Posts ready st st') :
    st.Alike st' := by
  obtain ⟨came, -, hs⟩ := h.sends
  exact ⟨hs.identity, hs.config, hs.down, hs.own, hs.entries, h.lines, h.nextLink⟩

theorem posts_refl (ready : Message → Prop) (st : Station) : Posts ready st st :=
  ⟨⟨none, by simp, Server.sends_refl none _⟩, rfl, rfl⟩

theorem posts_of_sends {ready : Message → Prop} {came : Option Message} (st : Station) {s : Server}
    (hr : ∀ msg ∈ came, ready msg) (h : st.server.Sends came s) :
    Posts ready st { st with server := s } :=
  ⟨⟨came, hr, h⟩, rfl, rfl⟩

end Station

namespace Mesh

variable {m m' m'' : Mesh} {id other : Id} {st : Station} {t : Transit}

theorem station?_set (m : Mesh) (id : Id) (st : Station) (other : Id) :
    (m.set id st).station? other = if other = id then some st else m.station? other :=
  SortedMap.get?_insert _ _ _ _

@[simp] theorem station?_set_self : (m.set id st).station? id = some st := by simp [station?_set]

theorem station?_set_ne (h : other ≠ id) : (m.set id st).station? other = m.station? other := by
  simp [station?_set, h]

theorem set_set (m : Mesh) (id : Id) (st st' : Station) : (m.set id st).set id st' = m.set id st' := by
  unfold set
  congr 1
  apply SortedMap.ext_get?
  intro k
  simp only [SortedMap.get?_insert]
  split <;> rfl

theorem set_self (hs : m.station? id = some st) : m.set id st = m := by
  unfold set
  congr 1
  apply SortedMap.ext_get?
  intro k
  rw [SortedMap.get?_insert]
  split
  next hk => rw [hk]; exact hs.symm
  next => rfl

theorem exists_wire_of_take {m' : Mesh} {k : Nat} {t : Transit} (h : m.take k = some (t, m')) :
    ∃ wire, (t :: wire).Perm m.wire ∧ m' = { m with wire } := by
  unfold take at h
  dsimp only at h
  split at h
  · cases h
  · split at h
    · cases h
    next hfind =>
      cases h
      refine ⟨_, ?_, rfl⟩
      rw [eraseP_eq_erase hfind]
      exact (List.perm_cons_erase (List.mem_of_find?_eq_some hfind)).symm

@[simp] theorem waiting_set : (m.set id st).waiting = m.waiting := rfl

@[simp] theorem hooks_set : (m.set id st).hooks = m.hooks := rfl

@[simp] theorem wire_update (change : Station → Station) : (m.update id change).wire = m.wire := by
  unfold update
  split <;> rfl

@[simp] theorem waiting_update (change : Station → Station) :
    (m.update id change).waiting = m.waiting := by
  unfold update
  split <;> rfl

@[simp] theorem hooks_update (change : Station → Station) :
    (m.update id change).hooks = m.hooks := by
  unfold update
  split <;> rfl

theorem station?_updateAll (m : Mesh) (change : Server → Server) (id : Id) :
    (m.updateAll change).station? id =
      (m.station? id).map fun st => { st with server := change st.server } :=
  SortedMap.get?_mapValues _ _ _

theorem updateAll_eq {change : Server → Server}
    (h : ∀ id st, m.station? id = some st → change st.server = st.server) :
    m.updateAll change = m := by
  unfold updateAll
  congr 1
  refine SortedMap.ext_get? fun id => ?_
  rw [SortedMap.get?_mapValues]
  cases hs : m.stations.get? id with
  | none => rfl
  | some st => rw [Option.map_some, h id st hs]

theorem collectAt_none (hs : m.station? id = none) : m.collectAt id = (m, []) := by
  simp only [collectAt, hs]

theorem collectAt_eq (hs : m.station? id = some st) : m.collectAt id =
    ({ m.set id st.drain.1 with
        wire := m.wire ++ st.drain.2.filterMap fun b =>
          b.1.peer.map fun peer => (⟨id, peer, b.2⟩ : Transit) },
      st.drain.2.map fun b => ⟨id, b.1, b.2⟩) := by
  simp only [collectAt, hs]

theorem station?_collectAt (hs : m.station? id = some st) (other : Id) :
    (m.collectAt id).1.station? other = if other = id then some st.drain.1 else m.station? other := by
  rw [collectAt_eq hs]
  exact m.station?_set id st.drain.1 other

/-- To empty the queues of a station changes its outbox. -/
theorem station?_collectEach (m : Mesh) (ids : List Id) (id : Id) : ∃ outbox,
    (m.collectEach ids).1.station? id =
      (m.station? id).map fun st => { st with server := { st.server with outbox } } := by
  induction ids generalizing m with
  | nil =>
    cases hs : m.station? id with
    | none => exact ⟨.empty, hs⟩
    | some st => exact ⟨st.server.outbox, hs⟩
  | cons first ids ih =>
    obtain ⟨outbox, hrest⟩ := ih (m.collectAt first).1
    refine ⟨outbox, hrest.trans ?_⟩
    cases hs : m.station? first with
    | none => rw [collectAt_none hs]
    | some st =>
      rw [station?_collectAt hs]
      split
      next he =>
        obtain ⟨drained, hdrain, -⟩ := st.exists_drain
        rw [he, hs, hdrain]
        rfl
      next => rfl

/-- Every server is as before, up to its queues. -/
structure Alike (m m' : Mesh) : Prop where
  forth : ∀ id st, m.station? id = some st → ∃ st', m'.station? id = some st' ∧ st.Alike st'
  back : ∀ id st', m'.station? id = some st' → ∃ st, m.station? id = some st ∧ st.Alike st'

theorem alike_refl (m : Mesh) : m.Alike m :=
  ⟨fun _ st h => ⟨st, h, st.alike_refl⟩, fun _ st h => ⟨st, h, st.alike_refl⟩⟩

theorem Alike.trans (h : m.Alike m') (h' : m'.Alike m'') : m.Alike m'' := by
  constructor
  · intro id st hs
    obtain ⟨st', hs', ha⟩ := h.forth id st hs
    obtain ⟨st'', hs'', ha'⟩ := h'.forth id st' hs'
    exact ⟨st'', hs'', ha.trans ha'⟩
  · intro id st'' hs''
    obtain ⟨st', hs', ha'⟩ := h'.back id st'' hs''
    obtain ⟨st, hs, ha⟩ := h.back id st' hs'
    exact ⟨st, hs, ha.trans ha'⟩

theorem alike_of_stations (h : m'.stations = m.stations) : m.Alike m' := by
  have hs : ∀ id, m'.station? id = m.station? id := fun id => by unfold station?; rw [h]
  exact ⟨fun id st h => ⟨st, (hs id).trans h, st.alike_refl⟩,
    fun id st h => ⟨st, (hs id) ▸ h, st.alike_refl⟩⟩

theorem alike_set {st' : Station} (hs : m.station? id = some st) (ha : st.Alike st') :
    m.Alike (m.set id st') := by
  constructor
  · intro other old ho
    by_cases h : other = id
    · subst h
      obtain rfl : st = old := Option.some.inj (hs.symm.trans ho)
      exact ⟨st', station?_set_self, ha⟩
    · exact ⟨old, (station?_set_ne h).trans ho, old.alike_refl⟩
  · intro other new ho
    by_cases h : other = id
    · subst h
      obtain rfl : st' = new := Option.some.inj (station?_set_self.symm.trans ho)
      exact ⟨st, hs, ha⟩
    · exact ⟨new, (station?_set_ne h).symm.trans ho, new.alike_refl⟩

/-- At every station, the connections have different numbers. -/
def Orderly (m : Mesh) : Prop :=
  ∀ id st, m.station? id = some st → (st.lines.map (·.link)).Nodup

theorem Alike.orderly (h : m.Alike m') (ho : m.Orderly) : m'.Orderly := by
  intro id st' hs'
  obtain ⟨st, hs, ha⟩ := h.back id st' hs'
  rw [ha.lines]
  exact ho id st hs

/-- Frames have gone from queues to the wire, and nothing else has happened. -/
structure Collects (m m' : Mesh) : Prop where
  alike : m.Alike m'
  hooks : m'.hooks = m.hooks
  waiting : m'.waiting = m.waiting
  pending : ∀ t, m'.Pending t ↔ m.Pending t

theorem collects_refl (m : Mesh) : m.Collects m := ⟨m.alike_refl, rfl, rfl, fun _ => Iff.rfl⟩

theorem Collects.trans (h : m.Collects m') (h' : m'.Collects m'') : m.Collects m'' :=
  ⟨h.alike.trans h'.alike, h'.hooks.trans h.hooks, h'.waiting.trans h.waiting,
    fun t => (h'.pending t).trans (h.pending t)⟩

theorem collects_collectAt (ho : m.Orderly) (id : Id) : m.Collects (m.collectAt id).1 := by
  unfold collectAt
  cases hs : m.station? id with
  | none => exact m.collects_refl
  | some st =>
    obtain ⟨outbox, hdrain, hwaiting⟩ := st.exists_drain
    have hsent : st.drain.2 = (Station.drainLines st.server st.lines).2 := rfl
    have halike : st.Alike st.drain.1 := by rw [hdrain]; exact ⟨rfl, rfl, rfl, rfl, rfl, rfl, rfl⟩
    refine ⟨(alike_set hs halike).trans (alike_of_stations rfl), rfl, rfl, fun t => ?_⟩
    have htransit : t ∈ (st.drain.2.filterMap fun b =>
        b.1.peer.map fun peer => (⟨id, peer, b.2⟩ : Transit)) ↔
        t.source = id ∧ ∃ line, (line, t.frame) ∈ st.drain.2 ∧ line.peer = some t.target := by
      rw [List.mem_filterMap]
      constructor
      · rintro ⟨⟨line, f⟩, hmem, hmap⟩
        obtain ⟨peer, hpeer, rfl⟩ := Option.map_eq_some_iff.1 hmap
        exact ⟨rfl, line, hmem, hpeer⟩
      · rintro ⟨rfl, line, hmem, hpeer⟩
        exact ⟨(line, t.frame), hmem, by simp [hpeer]⟩
    constructor
    · rintro (hwire | ⟨st', hs', line, hl, hpeer, hf⟩)
      · rcases List.mem_append.1 hwire with hold | hnew
        · exact .inl hold
        · obtain ⟨hid, line, hmem, hpeer⟩ := htransit.1 hnew
          obtain ⟨hl, hf⟩ := Station.waiting_of_mem_drainLines (hsent ▸ hmem)
          exact .inr ⟨st, hid ▸ hs, line, hl, hpeer, hf⟩
      · by_cases hid : t.source = id
        · have hst' : st' = st.drain.1 := by
            have : (m.set id st.drain.1).station? t.source = some st' := hs'
            rw [hid, station?_set_self] at this
            exact (Option.some.inj this).symm
          rw [hst', hdrain] at hl hf
          have hw := hwaiting line.link
          simp only at hf
          rw [hw] at hf
          split at hf
          · simp at hf
          · exact .inr ⟨st, hid ▸ hs, line, hl, hpeer, hf⟩
        · have : (m.set id st.drain.1).station? t.source = some st' := hs'
          rw [station?_set_ne hid] at this
          exact .inr ⟨st', this, line, hl, hpeer, hf⟩
    · rintro (hwire | ⟨st', hs', line, hl, hpeer, hf⟩)
      · exact .inl (List.mem_append_left _ hwire)
      · by_cases hid : t.source = id
        · obtain rfl : st = st' := Option.some.inj (hs.symm.trans (hid ▸ hs'))
          rcases Station.mem_drainLines (ho id st hs) hl hf with hout | hin
          · exact .inl (List.mem_append_right _ (htransit.2 ⟨hid, line, hsent ▸ hout, hpeer⟩))
          · refine .inr ⟨st.drain.1, hid ▸ station?_set_self, line, ?_, hpeer, hin⟩
            rw [hdrain]
            exact hl
        · exact .inr ⟨st', (station?_set_ne hid).trans hs', line, hl, hpeer, hf⟩

theorem collects_collectEach (ho : m.Orderly) (ids : List Id) : m.Collects (m.collectEach ids).1 := by
  induction ids generalizing m with
  | nil => exact m.collects_refl
  | cons id ids ih =>
    have first := collects_collectAt ho id
    exact first.trans (ih (first.alike.orderly ho))

/-- The servers do nothing but send, each while it handles a message that `ready` admits there. -/
structure Posts (ready : Id → Message → Prop) (m m' : Mesh) : Prop where
  wire : m'.wire = m.wire
  forth : ∀ id st, m.station? id = some st →
    ∃ st', m'.station? id = some st' ∧ st.Posts (ready id) st'
  back : ∀ id st', m'.station? id = some st' →
    ∃ st, m.station? id = some st ∧ st.Posts (ready id) st'

variable {ready : Id → Message → Prop}

theorem Posts.alike (h : Posts ready m m') : m.Alike m' := by
  constructor
  · intro id st hs
    obtain ⟨st', hs', hp⟩ := h.forth id st hs
    exact ⟨st', hs', hp.alike⟩
  · intro id st' hs'
    obtain ⟨st, hs, hp⟩ := h.back id st' hs'
    exact ⟨st, hs, hp.alike⟩

/-- A frame that is on its way was so before, or one of the servers has just written it. -/
theorem Posts.pending (h : Posts ready m m') (ht : m'.Pending t) :
    m.Pending t ∨ ∃ st line came, m.station? t.source = some st ∧ line ∈ st.lines ∧
      line.peer = some t.target ∧ (∀ msg ∈ came, ready t.source msg) ∧
        st.server.Writes came line.link t.frame := by
  rcases ht with hwire | ⟨st', hs', line, hl, hpeer, hf⟩
  · exact .inl (.inl (h.wire ▸ hwire))
  · obtain ⟨st, hs, hp⟩ := h.back _ st' hs'
    obtain ⟨came, hready, hsends⟩ := hp.sends
    obtain ⟨frames, hq, hframes⟩ := hsends.outbox.queues line.link
    rw [hp.lines] at hl
    rw [hq] at hf
    rcases List.mem_append.1 hf with hold | hnew
    · exact .inl (.inr ⟨st, hs, line, hl, hpeer, hold⟩)
    · exact .inr ⟨st, line, came, hs, hl, hpeer, hready, hframes _ hnew⟩

/-- No frame is taken back. -/
theorem Posts.pending_of_pending (h : Posts ready m m') (ht : m.Pending t) : m'.Pending t := by
  rcases ht with hwire | ⟨st, hs, line, hl, hpeer, hf⟩
  · exact .inl (h.wire.symm ▸ hwire)
  · obtain ⟨st', hs', hp⟩ := h.forth _ st hs
    obtain ⟨came, -, hsends⟩ := hp.sends
    obtain ⟨frames, hq, -⟩ := hsends.outbox.queues line.link
    refine .inr ⟨st', hs', line, hp.lines.symm ▸ hl, hpeer, ?_⟩
    rw [hq]
    exact List.mem_append_left _ hf

variable (ready)

theorem posts_set {st' : Station} (hs : m.station? id = some st) (hp : st.Posts (ready id) st') :
    Posts ready m (m.set id st') := by
  refine ⟨rfl, fun other old ho => ?_, fun other new ho => ?_⟩
  · by_cases h : other = id
    · subst h
      obtain rfl : st = old := Option.some.inj (hs.symm.trans ho)
      exact ⟨st', station?_set_self, hp⟩
    · exact ⟨old, (station?_set_ne h).trans ho, Station.posts_refl _ old⟩
  · by_cases h : other = id
    · subst h
      obtain rfl : st' = new := Option.some.inj (station?_set_self.symm.trans ho)
      exact ⟨st, hs, hp⟩
    · exact ⟨new, (station?_set_ne h).symm.trans ho, Station.posts_refl _ new⟩

theorem posts_updateAll (m : Mesh) {change : Server → Server}
    (h : ∀ s : Server, s.Sends none (change s)) : Posts ready m (m.updateAll change) := by
  refine ⟨rfl, fun id st hs => ?_, fun id st' hs' => ?_⟩
  · refine ⟨{ st with server := change st.server }, ?_, st.posts_of_sends (by simp) (h _)⟩
    rw [station?_updateAll, hs]
    rfl
  · rw [station?_updateAll] at hs'
    obtain ⟨st, hs, rfl⟩ := Option.map_eq_some_iff.1 hs'
    exact ⟨st, hs, st.posts_of_sends (by simp) (h _)⟩

theorem posts_expire (m : Mesh) : Posts ready m m.expire :=
  m.posts_updateAll ready Server.sends_expire

theorem posts_release (m : Mesh) (w : Withheld) (hr : ready w.interceptor.owner w.msg) :
    Posts ready m (m.updateServer w.interceptor.owner (·.release w)) := by
  unfold updateServer update
  cases hs : m.station? w.interceptor.owner with
  | none =>
    exact ⟨rfl, fun id st h => ⟨st, h, Station.posts_refl _ st⟩,
      fun id st h => ⟨st, h, Station.posts_refl _ st⟩⟩
  | some st =>
    refine posts_set ready hs (st.posts_of_sends ?_ (Server.sends_release st.server w))
    rintro msg ⟨⟩
    exact hr

end Mesh

end RelayMesh
