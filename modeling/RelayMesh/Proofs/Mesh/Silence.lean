import RelayMesh.Proofs.Mesh.Discovery
import RelayMesh.Proofs.Mesh.Gossip
import RelayMesh.Proofs.Mesh.Passing
import Mathlib.Algebra.BigOperators.Group.Finset.Piecewise
import Mathlib.Algebra.Order.BigOperators.Group.Finset
import Mathlib.Data.Multiset.DershowitzManna

namespace RelayMesh

namespace Mesh

/-- How far the message in the frame may still go among `n` servers, at most. -/
def rank (n : Nat) (f : Frame) : Nat :=
  match f.message with
  | .ok msg => 2 * n - msg.path.length
  | .error _ => 0

/-- How far each of the messages between servers may still go. -/
def traffic (servers : List Id) (m : Mesh) : Multiset Nat :=
  ∑ p ∈ servers.toFinset ×ˢ servers.toFinset,
    (((m.channel p.1 p.2).map (rank servers.length) : List Nat) : Multiset Nat)

/-- The overlay after so many frames have arrived, one after the other, from these places on the wire. -/
def stream (m : Mesh) (places : Nat → Nat) : Nat → Mesh
  | 0 => m
  | n + 1 => (m.stream places n).move (.deliver (places n))

variable {servers : List Id} {m : Mesh} {id : Id} {st : Station} {t : Transit} {place : Nat}
  {P : LinkId → Frame → Prop} {s : Server} {f : Frame} {msg : Message}

/-- A frame that is taken off the wire is missing from its channel. -/
theorem perm_channel_erase (ht : m.wire[place]? = some t) (p : Id × Id) :
    (m.channel p.1 p.2).Perm ((if p = (t.source, t.target) then [t.frame] else []) ++
      ({ m with wire := m.wire.eraseIdx place } : Mesh).channel p.1 p.2) := by
  obtain ⟨hlt, rfl⟩ := List.getElem?_eq_some_iff.1 ht
  have hperm := m.wire.getElem_cons_eraseIdx_perm hlt
  obtain ⟨u, v⟩ := p
  rw [channel, channel, ← List.append_assoc]
  refine List.Perm.append_right _ (((hperm.symm.filter _).map _).trans ?_)
  by_cases hp : m.wire[place].source = u ∧ m.wire[place].target = v
  · obtain ⟨rfl, rfl⟩ := hp
    simp [onWire]
  · have hp' : ¬ (u, v) = (m.wire[place].source, m.wire[place].target) := by
      rintro ⟨⟩
      exact hp ⟨rfl, rfl⟩
    rw [List.filter_cons_of_neg (by simpa using hp), if_neg hp']
    exact .refl _

theorem Guidance.traffic_erase (h : m.Guidance servers) (ht : m.wire[place]? = some t) :
    traffic servers m =
      traffic servers { m with wire := m.wire.eraseIdx place } + {rank servers.length t.frame} := by
  obtain ⟨hlinked, -⟩ := h.pending t (.inl (List.mem_of_getElem? ht))
  have hpair : (t.source, t.target) ∈ servers.toFinset ×ˢ servers.toFinset := by
    rw [Finset.mem_product, List.mem_toFinset, List.mem_toFinset, ← h.members, ← h.members]
    exact ⟨h.isSome_of_linked (h.symm _ _ hlinked), h.isSome_of_linked hlinked⟩
  have heach (p : Id × Id) : (((m.channel p.1 p.2).map (rank servers.length) : List Nat) :
      Multiset Nat) = (if p = (t.source, t.target) then {rank servers.length t.frame} else 0) +
        ((({ m with wire := m.wire.eraseIdx place } : Mesh).channel p.1 p.2).map
          (rank servers.length) : List Nat) := by
    rw [Multiset.coe_eq_coe.2 ((perm_channel_erase ht p).map (rank servers.length)), List.map_append,
      ← Multiset.coe_add]
    split <;> rfl
  unfold traffic
  rw [Finset.sum_congr rfl fun p _ => heach p, Finset.sum_add_distrib, Finset.sum_ite_eq',
    if_pos hpair, add_comm]

/-- What a server sends comes at the end of its channels. -/
theorem channel_tells (hs : m.station? id = some st) (h : st.server.Tells P s) (u v : Id) :
    ∃ frames, (m.set id { st with server := s }).channel u v = m.channel u v ++ frames ∧
      ∀ f ∈ frames, ∃ line ∈ st.lines, line.peer ≠ none ∧ P line.link f := by
  by_cases hu : u = id
  · have hqueue : ∃ frames, ({ st with server := s } : Station).queueTo v = st.queueTo v ++ frames ∧
        ∀ f ∈ frames, ∃ line ∈ st.lines, line.peer ≠ none ∧ P line.link f := by
      unfold Station.queueTo
      rw [show ({ st with server := s } : Station).lineTo? v = st.lineTo? v from rfl]
      cases hto : st.lineTo? v with
      | none => exact ⟨[], rfl, by simp⟩
      | some line =>
        obtain ⟨frames, hq, hp⟩ := h.outbox.queues line.link
        have hpeer : line.peer = some v := by simpa using List.find?_some hto
        exact ⟨frames, hq, fun f hf =>
          ⟨line, List.mem_of_find?_eq_some hto, by simp [hpeer], hp f hf⟩⟩
    obtain ⟨frames, hq, hp⟩ := hqueue
    refine ⟨frames, ?_, hp⟩
    rw [channel, channel, hu, station?_set_self, hs, Option.elim_some, Option.elim_some, hq,
      List.append_assoc]
    rfl
  · rw [channel, channel, station?_set_ne hu]
    exact ⟨[], (List.append_nil _).symm, by simp⟩

/-- What a server sends comes on top of what is on its way. -/
theorem traffic_tells (hs : m.station? id = some st) (h : st.server.Tells P s) :
    ∃ new, traffic servers (m.set id { st with server := s }) = traffic servers m + new ∧
      ∀ k ∈ new, ∃ f, ∃ line ∈ st.lines, line.peer ≠ none ∧ P line.link f ∧
        k = rank servers.length f := by
  choose frames hq hp using channel_tells hs h
  refine ⟨∑ p ∈ servers.toFinset ×ˢ servers.toFinset,
    (((frames p.1 p.2).map (rank servers.length) : List Nat) : Multiset Nat), ?_, fun k hk => ?_⟩
  · simp only [traffic, hq, List.map_append, ← Multiset.coe_add, Finset.sum_add_distrib]
  · obtain ⟨p, -, hk⟩ := Multiset.mem_sum.1 hk
    obtain ⟨f, hf, rfl⟩ := List.mem_map.1 (Multiset.mem_coe.1 hk)
    obtain ⟨line, hl, hpeer, hwrites⟩ := hp p.1 p.2 f hf
    exact ⟨f, line, hl, hpeer, hwrites, rfl⟩

/-- Emptying queues moves frames along, and that is all that follows. -/
theorem Gossips.traffic_settle (h : m.Gossips) (hm : m.Sane) :
    traffic servers m.settle.1 = traffic servers m := by
  rw [h.settle_eq hm]
  unfold traffic
  simp only [(gathers_collectEach hm m.stations.keys).channel]

/-- A message that goes on has less far to go, if there is room for the server on its path. -/
theorem Guidance.rank_copy (h : m.Guidance servers) (hp : m.Pending t)
    (hread : t.frame.message = .ok msg)
    (hroom : msg.path.count t.target < msg.content.visitLimit) {type : MessageType}
    (hf : f.IsCopy type (msg.appendToPath t.target).path) :
    rank servers.length f < rank servers.length t.frame := by
  obtain ⟨hlinked, -⟩ := h.pending t hp
  obtain ⟨htrack, -⟩ := h.track hp hread
  have htarget : t.target ∈ servers := (h.members _).1 (h.isSome_of_linked hlinked)
  have happend : (msg.appendToPath t.target).path = msg.path ++ [t.target] := by
    unfold Message.appendToPath
    rw [if_pos hroom]
  have hlength : (msg.path ++ [t.target]).length ≤ 2 * servers.length := by
    refine length_le_of_count (fun x hx => ?_) fun d => ?_
    · exact (List.mem_append.1 hx).elim (fun hx => htrack.subset hx)
        fun hx => List.mem_singleton.1 hx ▸ htarget
    · have hcount := htrack.count d
      have hlimit := visitLimit_le msg.content
      rw [List.count_append, List.count_singleton]
      by_cases hd : t.target = d
      · subst hd
        simp only [beq_self_eq_true, if_true]
        omega
      · simp only [beq_iff_eq, hd, if_false]
        omega
  rw [List.length_append, List.length_singleton] at hlength
  obtain ⟨-, copy, hcopy, hlonger⟩ := hf
  unfold rank
  rw [hread]
  cases hagain : f.message with
  | error why => dsimp only; omega
  | ok read =>
    obtain ⟨-, hsame, -, -⟩ := hcopy.header hagain
    dsimp only
    rw [hsame, hlonger, happend, List.length_append, List.length_singleton]
    omega

/-- What there is to be learned about all servers. -/
noncomputable def unlearned (servers : List Id) (m : Mesh) : Nat :=
  ∑ d ∈ servers.toFinset, (unknown servers m d).card

theorem unlearned_le {m' : Mesh} (he : m.Extends m') : unlearned servers m' ≤ unlearned servers m :=
  Finset.sum_le_sum fun _ _ => Finset.card_le_card (unknown_subset he)

/-- A frame that arrives gives way to others with messages that have less far to go. -/
theorem Gossips.traffic_lt (hg : m.Gossips) (h : m.Guidance servers) (ht : m.wire[place]? = some t)
    {new : Multiset Nat}
    (hnew : traffic servers (({ m with wire := m.wire.eraseIdx place } : Mesh).deliver t) =
      traffic servers { m with wire := m.wire.eraseIdx place } + new)
    (hless : ∀ k ∈ new, k < rank servers.length t.frame) :
    (traffic servers (m.move (.deliver place))).IsDershowitzMannaLT (traffic servers m) := by
  have hgone : m.Grown { m with wire := m.wire.eraseIdx place } :=
    h.toSane.alike (alike_of_stations rfl)
  have hgossip := hg.pending t (.inl (List.mem_of_getElem? ht))
  have hkept : traffic servers (({ m with wire := m.wire.eraseIdx place } : Mesh).deliver t).settle.1 =
      traffic servers (({ m with wire := m.wire.eraseIdx place } : Mesh).deliver t) :=
    ((hg.erase place).deliver hgone.sane hgossip).traffic_settle (hgone.sane.deliver t).sane
  refine ⟨_, new, {rank servers.length t.frame}, by simp, ?_, h.traffic_erase ht, by simpa⟩
  rw [Mesh.move, effect_deliver ht, hkept, hnew]

/-- A server that learns nothing from a message sends copies of it only. -/
theorem Gossips.deliver_copies (hg : m.Gossips) (hm : m.Sane) (ht : t.frame.IsGossip) {line : Line}
    (hh : m.Handles t st line msg)
    (hnothing : st.server.routes.learn msg.path line.link = (st.server.routes, [])) :
    ∃ new, traffic servers (m.deliver t) = traffic servers m + new ∧ ∀ k ∈ new, ∃ f,
      f.IsCopy t.frame.type (msg.appendToPath t.target).path ∧ k = rank servers.length f := by
  have hwired := hm.wired _ st hh.station
  rw [hh.deliver_open hm hg.hooks, Server.learnRoutes_eq hnothing]
  obtain ⟨new, hnew, hcopies⟩ :=
    traffic_tells hh.station (Server.tells_dispatch hg.hooks st.server ht msg)
  refine ⟨new, hnew, fun k hk => ?_⟩
  obtain ⟨f, out, hl, hpeer, ⟨c, hc⟩ | hcopy, rfl⟩ := hcopies k hk
  · exact absurd ((hwired.clients c out.link hc).2 out hl rfl) hpeer
  · rw [hwired.identity] at hcopy
    exact ⟨f, hcopy, rfl⟩

/-- A server that gets to know somebody on a path to be nearer has less to learn. -/
theorem Guidance.unlearned_lt (h : m.Guidance servers) (ht : m.wire[place]? = some t) {line : Line}
    (hh : m.Handles t st line msg) {i : Nat} {d : Id} (hi : msg.path.reverse[i]? = some d)
    (hlong : ¬ st.server.routes.Within d (min (i + 1) Routes.maxHops))
    (hnear : (st.server.routes.learn msg.path line.link).1.Within d (min (i + 1) Routes.maxHops)) :
    unlearned servers (m.move (.deliver place)) < unlearned servers m := by
  have hgrown : m.Grown (m.move (.deliver place)) := h.toSane.move trivial
  obtain ⟨htrack, -⟩ := h.track (.inl (List.mem_of_getElem? ht)) hh.read
  have hd : d ∈ msg.path := List.mem_reverse.1 (List.mem_of_getElem? hi)
  have hlt := Routes.lt_length_of_place hi
  have hlength := htrack.length_le
  have hgrows : (m.set t.target (st.taught msg.path line.link)).Grown
      (({ m with wire := m.wire.eraseIdx place } : Mesh).deliver t) :=
    have hturned : Turned (fun _ => True) m _ _ _ := hh.turned h.toSane ht trivial
    hturned.grows
  have hknows : (m.move (.deliver place)).Knows t.target d (min (i + 1) Routes.maxHops) := by
    rw [Mesh.move, effect_deliver ht]
    exact hgrows.sane.settle.extended.knows _ _ _
      (hgrows.extended.knows _ _ _ ⟨_, station?_set_self, hnear⟩)
  have hnew : (t.target, min (i + 1) Routes.maxHops) ∈ unknown servers m d := by
    refine mem_unknown.2 ⟨(h.members _).1 (by rw [hh.station]; rfl), by omega, ?_⟩
    rintro ⟨old, hold, hw⟩
    obtain rfl : st = old := Option.some.inj (hh.station.symm.trans hold)
    exact hlong hw
  refine Finset.sum_lt_sum (fun d _ => Finset.card_le_card (unknown_subset hgrown.extended))
    ⟨d, List.mem_toFinset.2 (htrack.subset hd), Finset.card_lt_card ?_⟩
  exact (Finset.ssubset_iff_of_subset (unknown_subset hgrown.extended)).2
    ⟨_, hnew, fun hmem => (mem_unknown.1 hmem).2.2 hknows⟩

/-- What is left to be learned, and what is on its way. -/
noncomputable def outlook (servers : List Id) (m : Mesh) : Nat × Multiset Nat :=
  (unlearned servers m, traffic servers m)

/-- With less to learn, or as much, and less far to go, the outlook is smaller. -/
theorem outlook_lt_of_le {m' : Mesh} (hle : unlearned servers m' ≤ unlearned servers m)
    (hlt : (traffic servers m').IsDershowitzMannaLT (traffic servers m)) :
    Prod.Lex (· < ·) Multiset.IsDershowitzMannaLT (outlook servers m') (outlook servers m) := by
  unfold outlook
  rcases Nat.lt_or_eq_of_le hle with hless | hsame
  · exact .left _ _ hless
  · rw [hsame]
    exact .right _ hlt

/-- With every frame that arrives there is less to be learned, or as much, and messages have less far
to go. -/
theorem Gossips.outlook_lt (hg : m.Gossips) (h : m.Guidance servers)
    (ht : m.wire[place]? = some t) (ho : m.Onward (.deliver place)) :
    Prod.Lex (· < ·) Multiset.IsDershowitzMannaLT (outlook servers (m.move (.deliver place)))
      (outlook servers m) := by
  have hpending : m.Pending t := .inl (List.mem_of_getElem? ht)
  have hgone : m.Grown { m with wire := m.wire.eraseIdx place } :=
    h.toSane.alike (alike_of_stations rfl)
  have hgrown : m.Grown (m.move (.deliver place)) := h.toSane.move trivial
  have hle : unlearned servers (m.move (.deliver place)) ≤ unlearned servers m :=
    unlearned_le hgrown.extended
  rcases hgone.sane.deliver_cases t with hsame | ⟨st, line, msg, hh⟩
  · have hnothing : ∀ k ∈ (0 : Multiset Nat), k < rank servers.length t.frame := by simp
    exact outlook_lt_of_le hle (hg.traffic_lt h ht (by rw [hsame, add_zero]) hnothing)
  · have hhere : m.Handles t st line msg := ⟨hh.station, hh.mem, hh.peer, hh.up, hh.read⟩
    have hroom : msg.path.count t.target < msg.content.visitLimit :=
      ho t ht msg (by rw [hh.read]; rfl)
    rcases st.server.routes.learn_cases msg.path line.link with
      hnothing | ⟨i, d, hi, hlong, hnear⟩
    · obtain ⟨new, hnew, hcopies⟩ :=
        (hg.erase place).deliver_copies hgone.sane (hg.pending t hpending) hh hnothing
      refine outlook_lt_of_le hle (hg.traffic_lt h ht hnew fun k hk => ?_)
      obtain ⟨f, hcopy, rfl⟩ := hcopies k hk
      exact h.rank_copy hpending hh.read hroom hcopy
    · exact .left _ _ (h.unlearned_lt ht hhere hi hlong hnear)

/-- In an overlay in which only announcements and chat are ever asked for, frames do not arrive for
ever: whichever frame arrives next each time, there comes a moment when none stands at that place on
the wire, or one comes to a server that its path has no room for. -/
theorem deliveries_end (servers : List Id) (config : Config) (moves : List Move)
    (ha : (Mesh.new servers config [] false).Obeys Triggers moves) :
    let m := (Mesh.new servers config [] false).play moves
    ∀ places : Nat → Nat, ∃ n, (m.stream places n).wire[places n]? = none ∨
      ¬ (m.stream places n).Onward (.deliver (places n)) := by
  intro m places
  have hstart : m.Guidance servers ∧ m.Gossips :=
    play_invariant (I := fun m => m.Guidance servers ∧ m.Gossips)
      (fun _ _ h hmv => ⟨h.1.move hmv.1, h.2.move h.1.toSane hmv⟩)
      ⟨guidance_new servers config [] false, gossips_new servers config⟩ ha
  have hall (n : Nat) : (m.stream places n).Guidance servers ∧ (m.stream places n).Gossips := by
    induction n with
    | zero => exact hstart
    | succ n ih => exact ⟨ih.1.move trivial, ih.2.move ih.1.toSane ⟨trivial, rfl⟩⟩
  have hwf : WellFounded (Prod.Lex (· < ·) (Multiset.IsDershowitzMannaLT (α := Nat))) :=
    WellFounded.prod_lex (wellFounded_lt (α := Nat)) Multiset.wellFounded_isDershowitzMannaLT
  have : IsWellFounded _ (Prod.Lex (· < ·) (Multiset.IsDershowitzMannaLT (α := Nat))) := ⟨hwf⟩
  obtain ⟨n, hn⟩ := WellFounded.not_rel_apply_succ
    (r := Prod.Lex (· < ·) (Multiset.IsDershowitzMannaLT (α := Nat)))
    fun n => outlook servers (m.stream places n)
  refine ⟨n, ?_⟩
  by_contra hgoes
  rw [not_or, not_not] at hgoes
  obtain ⟨t, ht⟩ := Option.ne_none_iff_exists'.1 hgoes.1
  exact hn ((hall n).2.outlook_lt (hall n).1 ht hgoes.2)

theorem deliveries_end_hello :
    let m := (Mesh.new [1, 2, 3] {} [] false).play hello
    (Mesh.new [1, 2, 3] {} [] false).Obeys Triggers hello ∧
      ∃ n, (m.stream (fun _ => 0) n).wire[0]? = none := by
  intro m
  have ha : (Mesh.new [1, 2, 3] {} [] false).Obeys Triggers hello := by decide +kernel
  have hstill (n : Nat) : m.stream (fun _ => 0) (5 + n) = m.stream (fun _ => 0) 5 := by
    induction n with
    | zero => rfl
    | succ n ih =>
      have hlast : (m.stream (fun _ => 0) 5).move (.deliver 0) = m.stream (fun _ => 0) 5 := by
        decide +kernel
      rw [← Nat.add_assoc, stream, ih, hlast]
  have honward (n : Nat) : (m.stream (fun _ => 0) n).Onward (.deliver 0) := by
    have hearly : ∀ n ≤ 5, (m.stream (fun _ => 0) n).Onward (.deliver 0) := by decide +kernel
    rcases Nat.le_total n 5 with hn | hn
    · exact hearly n hn
    · obtain ⟨k, rfl⟩ := Nat.exists_eq_add_of_le hn
      rw [hstill]
      exact hearly 5 le_rfl
  obtain ⟨n, hn⟩ := deliveries_end [1, 2, 3] {} hello ha fun _ => 0
  exact ⟨ha, n, hn.resolve_right (not_not.2 (honward n))⟩

section Echoes

/-- The overlay with more frames on its wire. -/
def laden (ts : List Transit) (m : Mesh) : Mesh := { m with wire := ts ++ m.wire }

/-- The overlay with nothing on its wire. -/
def bare (m : Mesh) : Mesh := { m with wire := [] }

theorem bare_laden (ts : List Transit) (m : Mesh) : (m.laden ts).bare = m.bare := rfl

theorem deliver_laden (ts : List Transit) (m : Mesh) (t : Transit) :
    (m.laden ts).deliver t = (m.deliver t).laden ts := by
  have hstation (id : Id) : (m.laden ts).station? id = m.station? id := rfl
  simp only [deliver, arrive, hstation]
  cases (m.station? t.target).bind (·.lineTo? t.source) with
  | none => rfl
  | some line => cases m.station? t.target <;> rfl

theorem collectAt_laden (ts : List Transit) (m : Mesh) (id : Id) :
    ((m.laden ts).collectAt id).1 = (m.collectAt id).1.laden ts := by
  have hstation : (m.laden ts).station? id = m.station? id := rfl
  unfold collectAt
  rw [hstation]
  cases m.station? id with
  | none => rfl
  | some st => simp [laden, set]

theorem collectEach_laden (ts : List Transit) (m : Mesh) (ids : List Id) :
    ((m.laden ts).collectEach ids).1 = (m.collectEach ids).1.laden ts := by
  induction ids generalizing m with
  | nil => rfl
  | cons id ids ih =>
    have hfirst := collectAt_laden ts m id
    simp only [collectEach, hfirst, ih]

theorem collect_laden (ts : List Transit) (m : Mesh) :
    (m.laden ts).collect.1 = m.collect.1.laden ts :=
  collectEach_laden ts m.expire m.expire.stations.keys

theorem update_laden (ts : List Transit) (m : Mesh) (id : Id) (change : Station → Station) :
    (m.laden ts).update id change = (m.update id change).laden ts := by
  have hstation : (m.laden ts).station? id = m.station? id := rfl
  simp only [update, hstation]
  cases m.station? id <;> rfl

theorem giveReady_laden (ts : List Transit) (m : Mesh) (n : Nat) :
    ((m.laden ts).giveReady n).1 = (m.giveReady n).1.laden ts := by
  induction n generalizing m with
  | zero => rfl
  | succ n ih =>
    have hready : (m.laden ts).isReady = m.isReady := rfl
    have hwaiting : (m.laden ts).waiting = m.waiting := rfl
    simp only [giveReady, hready, hwaiting]
    cases m.waiting.find? m.isReady with
    | none => rfl
    | some withheld =>
      have hgiven : ({ m.laden ts with waiting := m.waiting.eraseP m.isReady } : Mesh).updateServer
          withheld.interceptor.owner (·.release withheld) =
          (({ m with waiting := m.waiting.eraseP m.isReady } : Mesh).updateServer
            withheld.interceptor.owner (·.release withheld)).laden ts :=
        update_laden ts { m with waiting := m.waiting.eraseP m.isReady } _ _
      dsimp only
      rw [hgiven, collect_laden, ih]

theorem settle_laden (ts : List Transit) (m : Mesh) :
    (m.laden ts).settle.1 = m.settle.1.laden ts := by
  have hwaiting : (m.collect.1.laden ts).waiting = m.collect.1.waiting := rfl
  simp only [settle, collect_laden, hwaiting, giveReady_laden]

/-- The rest of the wire has no part in the arrival of a frame. -/
theorem move_deliver_eq (ht : m.wire[place]? = some t) : m.move (.deliver place) =
    (m.bare.deliver t).settle.1.laden (m.wire.eraseIdx place) := by
  have hrest : ({ m with wire := m.wire.eraseIdx place } : Mesh) =
      m.bare.laden (m.wire.eraseIdx place) := by simp [bare, laden]
  rw [Mesh.move, effect_deliver ht, hrest, deliver_laden, settle_laden]

theorem bare_eq {m' : Mesh} (hs : m.stations.toList = m'.stations.toList) (hh : m.hooks = m'.hooks)
    (hw : m.waiting = m'.waiting) : m.bare = m'.bare := by
  have hstations : m.stations = m'.stations := by
    cases hm : m.stations
    cases hm' : m'.stations
    simpa [hm, hm'] using hs
  rw [bare, bare, hstations, hh, hw]

/-- Frames arrive from the places that `next` chooses. -/
def chase (next : Mesh → Nat) (m : Mesh) : Nat → Mesh
  | 0 => m
  | n + 1 => (chase next m n).move (.deliver (next (chase next m n)))

/-- If some frame can always arrive so that a property is kept, frames may arrive for ever. -/
theorem exists_stream {S : Mesh → Prop}
    (hS : ∀ m, S m → ∃ place, (m.wire[place]?).isSome ∧ S (m.move (.deliver place))) (h : S m) :
    ∃ places, ∀ n, ((m.stream places n).wire[places n]?).isSome := by
  choose! next hsome hkept using hS
  have hchase (n : Nat) : S (chase next m n) := by
    induction n with
    | zero => exact h
    | succ n ih => exact hkept _ ih
  refine ⟨fun n => next (chase next m n), fun n => ?_⟩
  have hstream : m.stream (fun n => next (chase next m n)) n = chase next m n := by
    induction n with
    | zero => rfl
    | succ n ih => rw [stream, ih, chase]
  rw [hstream]
  exact hsome _ (hchase n)

/-- A frame that comes back whenever another one arrives, which it is followed by. -/
theorem exists_stream_of_lap {t' : Transit}
    (h : let away := (m.bare.deliver t).settle.1
      let home := (away.bare.deliver t').settle.1
      t ∈ m.wire ∧ t' ∈ away.wire ∧ t ∈ home.wire ∧ home.stations.toList = m.stations.toList ∧
        home.hooks = m.hooks ∧ home.waiting = m.waiting) :
    ∃ places, ∀ n, ((m.stream places n).wire[places n]?).isSome := by
  obtain ⟨hthere, hback, hagain, hstations, hhooks, hwaiting⟩ := h
  have hsame := bare_eq hstations hhooks hwaiting
  refine exists_stream (S := fun m' => m'.bare = m.bare ∧ t ∈ m'.wire ∨
    m'.bare = (m.bare.deliver t).settle.1.bare ∧ t' ∈ m'.wire) ?_ (.inl ⟨rfl, hthere⟩)
  rintro m' (⟨hbare, hmem⟩ | ⟨hbare, hmem⟩)
  · obtain ⟨place, hplace⟩ := List.mem_iff_getElem?.1 hmem
    refine ⟨place, by rw [hplace]; rfl, .inr ?_⟩
    rw [move_deliver_eq hplace, hbare]
    exact ⟨bare_laden _ _, List.mem_append_right _ hback⟩
  · obtain ⟨place, hplace⟩ := List.mem_iff_getElem?.1 hmem
    refine ⟨place, by rw [hplace]; rfl, .inl ?_⟩
    rw [move_deliver_eq hplace, hbare]
    exact ⟨(bare_laden _ _).trans hsame, List.mem_append_right _ hagain⟩

/-- The connections of sixteen servers, of which 2 and 3 stand on many rings. -/
def manyRings : List (Id × Id) :=
  threeRings ++ [(3, 12), (2, 13), (13, 14), (14, 2), (2, 15), (15, 16), (16, 2), (16, 8), (9, 3),
    (15, 10), (14, 11)]

/-- Server 1 announces itself, and by the answer of 3 server 2 takes 7 for a neighbour. Then server 12
does so, and by the answer of 2 server 3 takes 16 for one. When 2 announces itself after that, its
message comes back to it from 3 and is sent there again, each for a neighbour that is none. -/
def uproar : List Move :=
  announcement 1 ::
    ([0, 1, 5, 7, 10, 19, 24, 31, 32, 40, 14, 53, 50, 63, 63, 0, 67, 62, 74, 76, 76].map .deliver) ++
  announcement 12 ::
    ([81, 86, 86, 91, 91, 100, 101, 109, 109, 117, 95, 133, 129, 142, 142, 81, 149, 141, 154, 156,
      156].map .deliver) ++
  announcement 2 :: ([162, 168, 175].map .deliver)

/-- The announcement of server 2 with 2 and 3 on its path as often as they may, as it goes from `a` to
`b`. -/
def echo (a b : Id) : Transit :=
  ⟨a, b, ⟨MessageType.identity, a, Wire.encodeMessage ⟨2, [2, 3, 2, 3], none, .identity⟩⟩⟩

/-- From then on servers 2 and 3 may send it to each other for ever, though nobody asks for anything
any more. -/
theorem echoes_for_ever :
    let new := Mesh.new [1, 2, 3, 4, 5, 6, 7, 8, 9, 10, 11, 12, 13, 14, 15, 16] {} [] false
    let m := new.play (connections manyRings ++ uproar)
    new.Obeys Triggers (connections manyRings ++ uproar) ∧
      ∃ places : Nat → Nat, ∀ n, ((m.stream places n).wire[places n]?).isSome := by
  -- said of the values, and not of names for them, so that the run is gone through once
  have hlap :
      let new := Mesh.new [1, 2, 3, 4, 5, 6, 7, 8, 9, 10, 11, 12, 13, 14, 15, 16] {} [] false
      let m := new.play (connections manyRings ++ uproar)
      let away := (m.bare.deliver (echo 3 2)).settle.1
      let home := (away.bare.deliver (echo 2 3)).settle.1
      new.Obeys Triggers (connections manyRings ++ uproar) ∧ echo 3 2 ∈ m.wire ∧
        echo 2 3 ∈ away.wire ∧ echo 3 2 ∈ home.wire ∧ home.stations.toList = m.stations.toList ∧
          home.hooks = m.hooks ∧ home.waiting = m.waiting := by
    decide +kernel
  exact hlap.imp_right exists_stream_of_lap

end Echoes

end Mesh

end RelayMesh
