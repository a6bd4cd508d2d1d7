import RelayMesh.Proofs.Mesh.Events
import RelayMesh.Proofs.Mesh.Identities

namespace RelayMesh

/-- The route to another server may be new by a path that came from the neighbour `r`. If the path ends
with this neighbour, the route is new or shorter, it goes over the neighbour, and it counts the place of
`other` from the end. -/
def Routes.Learned (t t' : Routes) (r : Id × Route) (path : List Id) (other : Id) : Prop :=
  other ≠ t.own ∧ ¬ t.IsClient other ∧ (path.getLast? = some r.1 → ∃ i, path.reverse[i]? = some other ∧
    ¬ t.Within other (min (i + 1) Routes.maxHops) ∧
      t'.get? other = some ⟨.server (min (i + 1) Routes.maxHops) r.1, r.2.link⟩)

namespace Mesh

/-- The frame that comes off the wire in a move. -/
def taken? (m : Mesh) : Move → Option Transit
  | .deliver place => m.wire[place]?
  | .step (.pick k) => (m.take k).map (·.1)
  | _ => none

/-- The frame that comes to a server in a move, over a connection of the server. -/
def arrival? (m : Mesh) : Move → Option (Id × LinkId × Frame)
  | .step (.at id (.frame label _ f)) =>
    ((m.station? id).bind (·.named? label)).map fun line => (id, line.link, f)
  | mv => (m.taken? mv).bind fun t =>
    (m.line? t.target t.source).map fun line => (t.target, line.link, t.frame)

/-- A frame comes to a server over the connection of one of its clients. -/
def FromClient (m : Mesh) : Event → Prop
  | .move mv => ∃ a ∈ m.arrival? mv, ∃ st ∈ m.station? a.1, ∃ r ∈ st.server.routes.atLink a.2.1,
    r.2.isClient = true
  | .give _ => False

instance (m : Mesh) : DecidablePred m.FromClient
  | .move mv => inferInstanceAs (Decidable (∃ a ∈ m.arrival? mv, ∃ st ∈ m.station? a.1,
      ∃ r ∈ st.server.routes.atLink a.2.1, r.2.isClient = true))
  | .give _ => .isFalse id

/-- A frame comes from a neighbour of the server `id`, which learns the route to `other` by its path. -/
def Teaches (m : Mesh) (e : Event) (id : Id) (t t' : Routes) (other : Id) : Prop :=
  ∃ mv link f r msg, e = .move mv ∧ m.arrival? mv = some (id, link, f) ∧ t.atLink link = some r ∧
    r.2.isClient = false ∧ f.message = .ok msg ∧ t.Learned t' r msg.path other

/-- What goes on its way because of an event. -/
def written (m : Mesh) (e : Event) : List Transit := (m.after e).wire.drop (m.occur e).wire.length

/-- What is kept back because of an event. -/
def kept (m : Mesh) (e : Event) : List Withheld := (m.occur e).waiting.drop m.waiting.length

/-- Events that follow from what a client sends: its frame comes to its server, and later on whatever
is written because of one of these events comes to a server, at once or after having been kept back.
Anything else may happen in between. -/
inductive Follows (m₀ : Mesh) : Mesh → Event → Prop
  | client {m : Mesh} {e : Event} (hl : m₀.Later m) (hc : m.FromClient e) : m₀.Follows m e
  | frame {m m' : Mesh} {e : Event} {t : Transit} {mv : Move} (h : m₀.Follows m e)
      (ht : t ∈ m.written e) (hl : (m.after e).Later m') (hmv : m'.taken? mv = some t) :
      m₀.Follows m' (.move mv)
  | kept {m m' : Mesh} {e : Event} {w : Withheld} (h : m₀.Follows m e) (hw : w ∈ m.kept e)
      (hl : (m.after e).Later m') (hw' : w ∈ m'.waiting) : m₀.Follows m' (.give w)

/-- A client sends something, or something harmless comes to a server. -/
def Event.Harmless (m : Mesh) : Event → Prop
  | .move mv => m.FromClient (.move mv) ∨ ∃ t, m.taken? mv = some t ∧ t.frame.Harmless
  | .give w => w.msg.content.kind = .identity

variable {m m' m₀ : Mesh} {mv : Move} {e : Event} {t : Transit} {w : Withheld} {id : Id}
  {link : LinkId} {f : Frame} {st : Station}

theorem exists_of_taken (h : m.taken? mv = some t) :
    ∃ wire, (t :: wire).Perm m.wire ∧ m.effect mv = ({ m with wire } : Mesh).deliver t := by
  unfold taken? at h
  split at h
  next place =>
    obtain ⟨hlt, ht⟩ := List.getElem?_eq_some_iff.1 h
    refine ⟨_, ?_, effect_deliver h⟩
    rw [← ht]
    exact List.getElem_cons_eraseIdx_perm hlt
  next k =>
    obtain ⟨⟨_, m'⟩, htake, rfl⟩ := Option.map_eq_some_iff.1 h
    obtain ⟨wire, hperm, rfl⟩ := exists_wire_of_take htake
    refine ⟨wire, hperm, ?_⟩
    simp only [effect, act, htake, Option.map_some]
  · cases h

/-- A frame that comes off the wire comes to its server, or there is no connection any more. -/
theorem arrival_of_taken (h : m.taken? mv = some t) :
    (∃ link, m.arrival? mv = some (t.target, link, t.frame)) ∨
      (m.effect mv).stations = m.stations ∧ (m.effect mv).waiting = m.waiting := by
  cases hline : m.line? t.target t.source with
  | some line =>
    refine .inl ⟨line.link, ?_⟩
    unfold arrival?
    split
    · cases h
    · rw [h, Option.bind_some, hline, Option.map_some]
  | none =>
    obtain ⟨wire, -, he⟩ := exists_of_taken h
    have hnone : (({ m with wire } : Mesh).station? t.target).bind (·.lineTo? t.source) = none :=
      hline
    rw [he, deliver, hnone]
    exact .inr ⟨rfl, rfl⟩

/-- What a frame does at its server does not depend on what is on the wire. -/
theorem arrive_wire (hs : m.station? id = some st) (wire : List Transit) (link : LinkId) (f : Frame) :
    (({ m with wire } : Mesh).arrive id link f).stations =
      (m.set id { st with server := (st.server.arrive m.hooks link f).1 }).stations ∧
    (({ m with wire } : Mesh).arrive id link f).waiting =
      m.waiting ++ (st.server.arrive m.hooks link f).2.toList := by
  have hs' : ({ m with wire } : Mesh).station? id = some st := hs
  simp [arrive, hs', set]

/-- What comes of a frame that comes to a server. -/
theorem effect_of_arrival (h : m.arrival? mv = some (id, link, f)) : ∃ st, m.station? id = some st ∧
    (m.effect mv).stations =
      (m.set id { st with server := (st.server.arrive m.hooks link f).1 }).stations ∧
    (m.effect mv).waiting = m.waiting ++ (st.server.arrive m.hooks link f).2.toList := by
  unfold arrival? at h
  split at h
  next server label options g =>
    obtain ⟨line, hline, he⟩ := Option.map_eq_some_iff.1 h
    cases he
    obtain ⟨st, hs, hnamed⟩ := Option.bind_eq_some_iff.1 hline
    refine ⟨st, hs, ?_⟩
    rw [effect_at hs]
    simp only [actAt, Station.obtain, hnamed, set_self hs]
    exact arrive_wire hs m.wire line.link f
  next =>
    obtain ⟨t, ht, hlands⟩ := Option.bind_eq_some_iff.1 h
    obtain ⟨line, hline, he⟩ := Option.map_eq_some_iff.1 hlands
    cases he
    obtain ⟨st, hs, hto⟩ := Option.bind_eq_some_iff.1 hline
    obtain ⟨wire, -, heffect⟩ := exists_of_taken ht
    have hfound : (({ m with wire } : Mesh).station? t.target).bind (·.lineTo? t.source) =
      some line := hline
    refine ⟨st, hs, ?_⟩
    rw [heffect, deliver, hfound]
    exact arrive_wire hs wire line.link t.frame

/-- One server is undisturbed in the event, and keeps back announcements at most. Its routes change by
what a neighbour teaches it. -/
structure Minds (m : Mesh) (e : Event) (id : Id) (st : Station) (s : Server) : Prop where
  station : m.station? id = some st
  occur : (m.occur e).stations = (m.set id { st with server := s }).stations
  undisturbed : st.server.Undisturbed s
  kept : ∀ w ∈ m.kept e, w.msg.content.kind = .identity
  routes : ∀ other, s.routes.get? other = st.server.routes.get? other ∨
    m.Teaches e id st.server.routes s.routes other

theorem kept_of_arrival (h : m.arrival? mv = some (id, link, f)) (hs : m.station? id = some st) :
    m.kept (.move mv) = (st.server.arrive m.hooks link f).2.toList := by
  obtain ⟨st', hs', -, hwaiting⟩ := effect_of_arrival h
  obtain rfl : st' = st := Option.some.inj (hs'.symm.trans hs)
  rw [kept, occur, hwaiting, List.drop_left]

/-- A frame that comes to a server changes its routes by its path, if it comes from a neighbour. -/
theorem teaches_of_arrival (h : m.arrival? mv = some (id, link, f)) (s : Server) (other : Id) :
    (s.arrive m.hooks link f).1.routes.get? other = s.routes.get? other ∨
      m.Teaches (.move mv) id s.routes (s.arrive m.hooks link f).1.routes other := by
  rcases s.get?_arrive m.hooks link f with hsame | ⟨peer, route, msg, hat, hc, hread, hlearn⟩
  · exact .inl (hsame other)
  · rw [hlearn other]
    refine (s.routes.get?_learn msg.path route.link other).imp_right ?_
    rintro ⟨hown, hclient, next, i, hlast, hi, hlong, hnew⟩
    refine ⟨mv, link, f, (peer, route), msg, rfl, h, hat, hc, hread, hown, hclient, fun hpeer => ?_⟩
    obtain rfl : next = peer := Option.some.inj (hlast.symm.trans hpeer)
    exact ⟨i, hi, hlong, (hlearn other).trans hnew⟩

/-- In a harmless event nothing happens, or one server minds it. -/
theorem Event.Harmless.cases (h : e.Harmless m) :
    (m.occur e).stations = m.stations ∧ m.kept e = [] ∨ ∃ id st s, m.Minds e id st s := by
  cases e with
  | move mv =>
    rcases h with ⟨⟨id, link, f⟩, harrival, st, hs, r, hr, hc⟩ | ⟨t, ht, hf⟩
    · obtain ⟨st', hs', hoccur, -⟩ := effect_of_arrival harrival
      obtain rfl : st' = st := Option.some.inj (hs'.symm.trans hs)
      obtain ⟨hu, -, hnone⟩ := Server.undisturbed_arrive_client m.hooks hr hc f
      refine .inr ⟨id, st', _, hs, hoccur, hu, fun w hw => ?_,
        teaches_of_arrival harrival st'.server⟩
      rw [kept_of_arrival harrival hs, hnone] at hw
      cases hw
    · rcases arrival_of_taken ht with ⟨link, harrival⟩ | ⟨hstations, hwaiting⟩
      · obtain ⟨st, hs, hoccur, -⟩ := effect_of_arrival harrival
        obtain ⟨hu, hkept⟩ := Server.undisturbed_arrive m.hooks st.server link hf
        refine .inr ⟨t.target, st, _, hs, hoccur, hu, fun w hw => ?_,
          teaches_of_arrival harrival st.server⟩
        rw [kept_of_arrival harrival hs] at hw
        exact hkept w (Option.mem_toList.1 hw)
      · refine .inl ⟨hstations, ?_⟩
        rw [kept, occur, hwaiting, List.drop_length]
  | give w =>
    have hkept : m.kept (.give w) = [] := by
      refine List.drop_eq_nil_of_le ?_
      rw [occur, updateServer, waiting_update]
      exact List.length_erase_le
    cases hs : m.station? w.interceptor.owner with
    | none =>
      refine .inl ⟨?_, hkept⟩
      have hnone : ({ m with waiting := m.waiting.erase w } : Mesh).station?
        w.interceptor.owner = none := hs
      simp only [occur, updateServer, update, hnone]
    | some st =>
      have hsome : ({ m with waiting := m.waiting.erase w } : Mesh).station?
        w.interceptor.owner = some st := hs
      refine .inr ⟨w.interceptor.owner, st, st.server.release w, hs, ?_,
        st.server.undisturbed_release h, by simp [hkept], fun other => .inl ?_⟩
      · simp only [occur, updateServer, update, hsome]
        rfl
      · exact (st.server.sends_release w).get? other

theorem Event.Harmless.undisturbed (h : e.Harmless m) : m.Undisturbed (m.occur e) := by
  rcases h.cases with ⟨hsame, -⟩ | ⟨id, st, s, hm⟩
  · exact undisturbed_of_stations hsame
  · have hst : st.Undisturbed { st with server := s } := ⟨hm.undisturbed, rfl⟩
    exact undisturbed_set hm.station hst hm.occur

/-- What follows from a harmless event is harmless. -/
theorem Event.Harmless.written (h : e.Harmless m) (hm : m.Settled) :
    ∀ t ∈ m.written e, t.frame.Harmless := by
  obtain ⟨sent, hwire, hsent⟩ := (hm.collect_of_undisturbed h.undisturbed).2
  intro t ht
  rw [Mesh.written, after, hwire, List.drop_left] at ht
  exact hsent t ht

theorem Event.Harmless.kept (h : e.Harmless m) : ∀ w ∈ m.kept e, w.msg.content.kind = .identity := by
  rcases h.cases with ⟨-, hnone⟩ | ⟨id, st, s, hm⟩
  · simp [hnone]
  · exact hm.kept

/-- What is written because of an event comes to its server at once. -/
theorem Follows.next (h : m₀.Follows m e)
    (ht : ∃ t ∈ m.written e, (m.after e).taken? mv = some t) : m₀.Follows (m.after e) (.move mv) := by
  obtain ⟨t, hwritten, htaken⟩ := ht
  exact .frame h hwritten .now htaken

end Mesh

end RelayMesh
