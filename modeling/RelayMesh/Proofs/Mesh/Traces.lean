import RelayMesh.Proofs.Mesh.Moves
import RelayMesh.Proofs.Server.Traces

namespace RelayMesh

namespace Mesh

variable {m m' : Mesh} {id : Id} {st : Station} {link : LinkId} {f : Frame} {t : Transit}

/-- The overlay without its servers' records of chat lines, and without its wire. -/
def core (m : Mesh) : Mesh :=
  { m with stations := m.stations.mapValues Station.forget, wire := [] }

/-- The overlay without all the traces of chat, and without its wire. -/
def stripped (m : Mesh) : Mesh :=
  { m with stations := m.stations.mapValues Station.stripped, wire := [] }

theorem station?_core (m : Mesh) (id : Id) : m.core.station? id = (m.station? id).map Station.forget :=
  SortedMap.get?_mapValues _ _ _

theorem station?_stripped (m : Mesh) (id : Id) :
    m.stripped.station? id = (m.station? id).map Station.stripped :=
  SortedMap.get?_mapValues _ _ _

theorem lineTo?_core (m : Mesh) (id peer : Id) :
    (m.core.station? id).bind (·.lineTo? peer) = (m.station? id).bind (·.lineTo? peer) := by
  rw [station?_core, Option.bind_map]
  rfl

theorem stripped_eq_of_core (h : m.core = m'.core) : m.stripped = m'.stripped := by
  have hcore (m : Mesh) : m.core.stripped = m.stripped := by
    unfold stripped core
    congr 1
    refine SortedMap.ext_get? fun id => ?_
    simp only [SortedMap.get?_mapValues, Option.map_map]
    rfl
  rw [← hcore m, h, hcore]

theorem set_core (m : Mesh) (id : Id) (st : Station) : m.core.set id st.forget = (m.set id st).core := by
  unfold core set
  congr 1
  refine SortedMap.ext_get? fun other => ?_
  simp only [SortedMap.get?_mapValues, SortedMap.get?_insert]
  split <;> rfl

theorem set_stripped (m : Mesh) (id : Id) (st : Station) :
    m.stripped.set id st.stripped = (m.set id st).stripped := by
  unfold stripped set
  congr 1
  refine SortedMap.ext_get? fun other => ?_
  simp only [SortedMap.get?_mapValues, SortedMap.get?_insert]
  split <;> rfl

theorem update_core (m : Mesh) (id : Id) {change : Station → Station}
    (h : ∀ st, change st.forget = (change st).forget) :
    m.core.update id change = (m.update id change).core := by
  unfold update
  rw [station?_core]
  cases m.station? id with
  | none => rfl
  | some st => simp only [Option.map_some, h, set_core]

theorem updateServer_core (m : Mesh) (id : Id) {change : Server → Server}
    (h : ∀ s, change s.forget = (change s).forget) :
    m.core.updateServer id change = (m.updateServer id change).core :=
  m.update_core id fun st => congrArg (fun server => ({ st with server } : Station)) (h st.server)

theorem updateAll_core (m : Mesh) {change : Server → Server}
    (h : ∀ s, change s.forget = (change s).forget) :
    m.core.updateAll change = (m.updateAll change).core := by
  unfold updateAll core
  congr 1
  refine SortedMap.ext_get? fun id => ?_
  simp only [SortedMap.get?_mapValues, Option.map_map]
  refine Option.map_congr fun st _ => ?_
  exact congrArg (fun server => ({ st with server } : Station)) (h st.server)

theorem arrive_core (m : Mesh) (id : Id) (link : LinkId) (hf : f.isControl = true) :
    m.core.arrive id link f = (m.arrive id link f).core := by
  have ht : MessageType.isForClients f.type = false := by simpa [Frame.isControl] using hf
  unfold arrive
  rw [station?_core]
  cases m.station? id with
  | none => rfl
  | some st =>
    have harrive : st.forget.server.arrive m.core.hooks link f =
        ((st.server.arrive m.hooks link f).1.forget, (st.server.arrive m.hooks link f).2) :=
      st.server.arrive_forget m.hooks link ht
    have hset := m.set_core id { st with server := (st.server.arrive m.hooks link f).1 }
    simp only [Option.map_some, harrive]
    exact congrArg (fun m' : Mesh =>
      { m' with waiting := m.waiting ++ (st.server.arrive m.hooks link f).2.toList }) hset

/-- Of a frame for clients, there remains what its path has taught. -/
theorem stripped_arrive (m : Mesh) (id : Id) (link : LinkId) (hf : f.isControl = false) :
    (m.arrive id link f).stripped = (m.updateServer id (·.heeding link f)).stripped := by
  unfold arrive updateServer update
  cases m.station? id with
  | none => rfl
  | some st =>
    obtain ⟨hserver, hkept⟩ := Server.stripped_arrive m.hooks st.server link hf
    have hst : ({ st with server := (st.server.arrive m.hooks link f).1 } : Station).stripped =
        ({ st with server := st.server.heeding link f } : Station).stripped :=
      congrArg (fun server => ({ st with server } : Station)) hserver
    simp only [hkept, Option.toList_none, List.append_nil]
    rw [← set_stripped, ← set_stripped, hst]

theorem deliver_core (m : Mesh) (hf : t.frame.isControl = true) :
    m.core.deliver t = (m.deliver t).core := by
  unfold deliver
  rw [lineTo?_core]
  cases (m.station? t.target).bind (·.lineTo? t.source) with
  | none => rfl
  | some line => exact m.arrive_core t.target line.link hf

/-- The server that the frame comes to heeds it. -/
def heed (m : Mesh) (t : Transit) : Mesh :=
  match (m.station? t.target).bind (·.lineTo? t.source) with
  | none => m
  | some line => m.updateServer t.target (·.heeding line.link t.frame)

theorem heed_core (m : Mesh) (t : Transit) : m.core.heed t = (m.heed t).core := by
  unfold heed
  rw [lineTo?_core]
  cases (m.station? t.target).bind (·.lineTo? t.source) with
  | none => rfl
  | some line => exact m.updateServer_core _ fun s => s.heeding_forget line.link t.frame

theorem stripped_deliver (m : Mesh) (hf : t.frame.isControl = false) :
    (m.deliver t).stripped = (m.heed t).stripped := by
  unfold deliver heed
  cases (m.station? t.target).bind (·.lineTo? t.source) with
  | none => rfl
  | some line => exact m.stripped_arrive t.target line.link hf

theorem join_core (m : Mesh) (a b : Id) : m.core.join a b = (m.join a b).core := by
  have hjoin (m : Mesh) (a b : Id) : m.core.joinOneWay a b = (m.joinOneWay a b).core := by
    refine m.update_core a fun st => ?_
    simp only [Station.forgetPeer_forget, Station.connect_forget]
    generalize (st.forgetPeer b).connect _ _ _ _ = r
    exact congrArg (fun server => ({ r.1 with server } : Station))
      (r.1.server.addNeighbour_forget b r.2)
  rw [join, hjoin, hjoin, join]

theorem sever_core (m : Mesh) (a b : Id) : m.core.sever a b = (m.sever a b).core := by
  have hsever (m : Mesh) (a b : Id) : m.core.severOneWay a b = (m.severOneWay a b).core := by
    refine m.update_core a fun st => ?_
    simp only [Station.lineTo?_forget]
    cases st.lineTo? b with
    | none => rfl
    | some line =>
      exact congrArg (fun server => ({ st with server } : Station))
        (st.server.closeLink_forget line.link)
  rw [sever, sever]
  exact (congrArg (·.severOneWay b a)
    (hsever { m with wire := m.wire.filter (fun t => ¬ isBetween a b t) } a b)).trans (hsever _ b a)

/-- The step is not about chat: it is no frame for clients, and nobody sends one to clients by hand. -/
def LocalStep.IsControl : LocalStep → Prop
  | .frame _ _ f => f.isControl = true
  | .command (.floodClients _ _ _) => False
  | _ => True

theorem actAt_core (m : Mesh) (id : Id) (st : Station) {step : LocalStep} (h : step.IsControl) :
    (m.core.actAt id st.forget step).1 = (m.actAt id st step).1.core := by
  have hserver (server : Server) : m.core.set id { st with server := server.forget } =
      (m.set id { st with server }).core := m.set_core id { st with server }
  cases step with
  | command c =>
    have hobeyed : (st.server.forget.obey c).1 = (st.server.obey c).1.forget :=
      st.server.obey_forget c fun except type msg he => by subst he; exact h
    exact (congrArg (fun server => m.core.set id { st with server }) hobeyed).trans (hserver _)
  | neighbour peer label options =>
    simp only [actAt, Station.obtain_forget]
    generalize st.obtain label options.capacity options.held = r
    exact (congrArg (fun server => m.core.set id { r.1 with server })
      (r.1.server.addNeighbour_forget peer r.2)).trans
        (m.set_core id { r.1 with server := r.1.server.addNeighbour peer r.2 })
  | client label options =>
    have hminted : ({ st.forget with server := st.forget.server.mintClientId.1 } : Station) =
        ({ st with server := st.server.mintClientId.1 } : Station).forget := rfl
    have hid : st.forget.server.mintClientId.2 = st.server.mintClientId.2 := rfl
    simp only [actAt, hminted, hid, Station.obtain_forget]
    generalize ({ st with server := st.server.mintClientId.1 } : Station).obtain
      (label.getD (toString st.server.mintClientId.2)) options.capacity options.held = r
    exact (congrArg (fun server => m.core.set id { r.1 with server })
      (r.1.server.addClient_forget st.server.mintClientId.2 r.2)).trans
        (m.set_core id { r.1 with server := r.1.server.addClient st.server.mintClientId.2 r.2 })
  | frame label options f =>
    simp only [actAt, Station.obtain_forget, set_core]
    exact arrive_core _ id _ h
  | closed label =>
    simp only [actAt, Station.named?_forget]
    cases st.named? label with
    | none => rfl
    | some line =>
      exact (congrArg (fun server => m.core.set id { st with server })
        (st.server.closeLink_forget line.link)).trans (hserver _)
  | unhold label =>
    simp only [actAt, Station.named?_forget]
    cases st.named? label with
    | none => rfl
    | some line => exact m.set_core id (st.amend line.link _)
  | dropQueue label =>
    simp only [actAt, Station.named?_forget]
    cases st.named? label with
    | none => rfl
    | some line => exact m.set_core id (st.dropQueue line.link)
  | closeLine label options =>
    simp only [actAt, Station.obtain_forget]
    exact m.set_core id ((st.obtain label options.capacity options.held).1.amend _ _)
  | start peers =>
    have hjoined (m : Mesh) (peers : List Id) :
        peers.foldl (fun m peer => m.join id peer) m.core =
          (peers.foldl (fun m peer => m.join id peer) m).core :=
      List.foldl_hom core fun m peer => m.join_core id peer
    simp only [actAt, hjoined]
    exact updateServer_core _ id Server.announce_forget

/-- The server heeds a frame that comes over the connection with a label. -/
def heedAt (m : Mesh) (id : Id) (label : String) (options : QueueOptions) (f : Frame) : Mesh :=
  m.update id fun st =>
    let (st, link) := st.obtain label options.capacity options.held
    { st with server := st.server.heeding link f }

section HeedAt

variable (id : Id) (label : String) (options : QueueOptions)

theorem heedAt_core (m : Mesh) (f : Frame) :
    m.core.heedAt id label options f = (m.heedAt id label options f).core :=
  m.update_core id fun st => by
    rw [Station.obtain_forget]
    exact congrArg (fun server => ({ (st.obtain label options.capacity options.held).1 with
      server } : Station)) (Server.heeding_forget _ _ f)

/-- Of a frame for clients that comes to a station, there remains what its path has taught. -/
theorem stripped_effect_frame (m : Mesh) (hf : f.isControl = false) :
    (m.effect (.step (.at id (.frame label options f)))).stripped =
      (m.heedAt id label options f).stripped := by
  unfold Mesh.heedAt update
  cases hs : m.station? id with
  | none => rw [effect_at_none hs]
  | some st =>
    rw [effect_at hs]
    dsimp only [actAt]
    generalize st.obtain label options.capacity options.held = known
    refine (stripped_arrive _ id _ hf).trans ?_
    simp only [updateServer, update, station?_set_self, set_set]

end HeedAt

/-- A move that takes no frame off the wire, and gives no chat line out by hand. -/
def Move.OffWire : Move → Prop
  | .deliver _ => False
  | .step (.pick _) => False
  | .step (.lose _) => False
  | .step (.at _ (.command (.floodClients _ _ _))) => False
  | _ => True

/-- Without chat, the same step has the same effect on servers that differ by their records only. -/
theorem effect_core {s : Step} (h : Move.OffWire (.step s))
    (hs : ∀ id label options f, s = .at id (.frame label options f) → f.isControl = true) (m : Mesh) :
    (m.core.effect (.step s)) = (m.effect (.step s)).core := by
  cases s with
  | advance ms =>
    have hadvance : m.core.updateAll (·.advance ms) = (m.updateAll (·.advance ms)).core :=
      m.updateAll_core fun s => s.advance_forget ms
    exact hadvance
  | enable enabled => rfl
  | pick k => exact h.elim
  | lose k => exact h.elim
  | cut a b => exact m.sever_core a b
  | «at» id step =>
    have hcontrol : step.IsControl := by
      cases step with
      | frame label options f => exact hs id label options f rfl
      | command c =>
        cases c with
        | floodClients except type msg => exact h.elim
        | _ => trivial
      | _ => trivial
    cases hst : m.station? id with
    | none =>
      rw [effect_at_none hst, effect_at_none]
      rw [station?_core, hst, Option.map_none]
    | some st =>
      rw [effect_at hst, ← actAt_core m id st hcontrol, effect_at]
      rw [station?_core, hst, Option.map_some]

theorem wire_arrive (m : Mesh) (id : Id) (link : LinkId) (f : Frame) :
    (m.arrive id link f).wire = m.wire := by
  unfold arrive
  cases m.station? id <;> rfl

theorem wire_deliver (m : Mesh) (t : Transit) : (m.deliver t).wire = m.wire := by
  unfold Mesh.deliver
  cases (m.station? t.target).bind (·.lineTo? t.source) with
  | none => rfl
  | some line => exact m.wire_arrive t.target line.link t.frame

/-- Such a move may end connections, with all that is on the wire there. -/
theorem wire_effect {mv : Move} (h : mv.OffWire) :
    ∃ p : Transit → Bool, ∀ m : Mesh, (m.effect mv).wire = m.wire.filter p := by
  have hjoin (m : Mesh) (a b : Id) : (m.join a b).wire = m.wire := by simp [join, joinOneWay]
  have hat (m : Mesh) (id : Id) (st : Station) (step : LocalStep) :
      (m.actAt id st step).1.wire = m.wire := by
    cases step with
    | frame label options f => exact wire_arrive _ id _ f
    | start peers =>
      have hjoined : (peers.foldl (fun m peer => m.join id peer) m).wire = m.wire := by
        induction peers generalizing m with
        | nil => rfl
        | cons peer peers ih => exact (ih _).trans (hjoin m id peer)
      simpa [actAt, updateServer] using hjoined
    | closed label => unfold actAt; dsimp only; split <;> rfl
    | unhold label => unfold actAt; dsimp only; split <;> rfl
    | dropQueue label => unfold actAt; dsimp only; split <;> rfl
    | _ => rfl
  cases mv with
  | join a b => exact ⟨fun _ => true, fun m => by simp [effect, hjoin]⟩
  | deliver place => exact h.elim
  | step s =>
    cases s with
    | «at» id step =>
      refine ⟨fun _ => true, fun m => ?_⟩
      rw [List.filter_true]
      cases hs : m.station? id with
      | none => rw [effect_at_none hs]
      | some st => rw [effect_at hs, hat]
    | advance ms => exact ⟨fun _ => true, fun m => (List.filter_true _).symm⟩
    | enable enabled => exact ⟨fun _ => true, fun m => (List.filter_true _).symm⟩
    | pick k => exact h.elim
    | lose k => exact h.elim
    | cut a b => exact ⟨fun t => ¬ isBetween a b t, fun m => by simp [effect, act, sever, severOneWay]⟩

end Mesh

end RelayMesh
