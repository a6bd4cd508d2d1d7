import RelayMesh.Proofs.Mesh.Sound
import RelayMesh.Proofs.Mesh.Space
import RelayMesh.Proofs.Server.Steps

namespace RelayMesh

namespace Server

variable {s : Server} {msg : Message} {dest : Id} {type : MessageType} {route : Route} {f : Frame}

/-- An operator's send is carried out as one of an algorithm is. -/
theorem obey_send (s : Server) (dest : Id) (type : MessageType) (msg : Message) :
    (s.obey (.send dest type msg)).1 = s.carryOut (.toServer dest type msg) := by
  simp only [obey, attempt, carryOut]
  split <;> simp_all

end Server

/-- Sending a message for one server adds the frame with it to the queue of its route, if it can be
written and there is space. -/
theorem Station.Wired.mem_drop_carryOut {id b d : Id} {st : Station} {now : Server}
    {type : MessageType} {msg : Message} {f : Frame} (hw : st.Wired id) (hid : now.identity = id)
    (hne : d ≠ id) :
    f ∈ (({ st with server := now.carryOut (.toServer d type msg) } : Station).queueTo b).drop
      (({ st with server := now } : Station).queueTo b).length ↔
    ∃ route out outbox, now.routes.get? d = some route ∧
      now.frame type (msg.appendToPath id) = .ok f ∧ now.outbox.push route.link f = .ok outbox ∧
      out ∈ st.lines ∧ out.peer = some b ∧ out.link = route.link := by
  subst hid
  have hto (now : Server) : ({ st with server := now } : Station).lineTo? b = st.lineTo? b := rfl
  cases hsend : now.sendTo d type msg with
  | error why =>
    have hsame : now.carryOut (.toServer d type msg) = now := by rw [Server.carryOut, hsend]
    rw [hsame, List.drop_length]
    refine iff_of_false List.not_mem_nil ?_
    rintro ⟨route, out, outbox, hroute, hf, hpush, -⟩
    have hsent := Server.sendTo_eq_ok_iff.2 ⟨hne, route, f, outbox, hroute, hf, hpush, rfl⟩
    rw [hsend] at hsent
    cases hsent
  | ok sent =>
    have hsent : now.carryOut (.toServer d type msg) = sent := by rw [Server.carryOut, hsend]
    obtain ⟨-, route, g, outbox, hroute, hg, hpush, rfl⟩ := Server.sendTo_eq_ok_iff.1 hsend
    rw [hsent]
    simp only [Station.queueTo, hto]
    constructor
    · intro hmem
      cases hline : st.lineTo? b with
      | none =>
        rw [hline] at hmem
        exact absurd hmem List.not_mem_nil
      | some line =>
        obtain ⟨hl, hpeer⟩ := hw.lineTo?_iff.1 hline
        simp only [hline, Outbox.waiting_of_push hpush, List.drop_left] at hmem
        split at hmem
        next hlink =>
          obtain rfl := List.mem_singleton.1 hmem
          exact ⟨route, line, outbox, hroute, hg, hpush, hl, hpeer, hlink⟩
        next => exact absurd hmem List.not_mem_nil
    · rintro ⟨route', out, outbox', hroute', hf, -, hl, hpeer, hlink⟩
      obtain rfl := Option.some.inj (hroute'.symm.trans hroute)
      obtain rfl := Except.ok.inj (hf.symm.trans hg)
      simp only [hw.lineTo?_iff.2 ⟨hl, hpeer⟩, Outbox.waiting_of_push hpush, List.drop_left, hlink,
        if_true, List.mem_singleton]

/-- Whom the message in the frame is for, if that is another server than the one it comes to. -/
def Transit.destination? (t : Transit) : Option Id :=
  match t.frame.message with
  | .ok msg =>
    if MessageType.isForClients t.frame.type then none else msg.recipient.filter (· ≠ t.target)
  | .error _ => none

theorem Transit.destination?_eq_some_iff {t : Transit} {d : Id} : t.destination? = some d ↔
    ∃ msg, t.frame.message = .ok msg ∧ MessageType.isForClients t.frame.type = false ∧
      msg.recipient = some d ∧ d ≠ t.target := by
  unfold destination?
  cases t.frame.message with
  | error why => simp
  | ok msg => cases hc : MessageType.isForClients t.frame.type <;> simp [Option.filter_eq_some_iff]

namespace Mesh

/-- No server's algorithms have gone on, and no message more is kept back. -/
structure Untouched (m m' : Mesh) : Prop where
  waiting : m'.waiting = m.waiting
  election : ∀ id, (m'.server? id).map (·.election) = (m.server? id).map (·.election)
  exclusion : ∀ id, (m'.server? id).map (·.exclusion) = (m.server? id).map (·.exclusion)

/-- The target of `t`, which is not down, has got the message `msg`. It runs the action of the
message, unless an interceptor keeps that back. -/
def HandsOver (m : Mesh) (t : Transit) (msg : Message) (m' : Mesh) : Prop :=
  match m.hooks.claim t.target msg with
  | some interceptor => m'.waiting = m.waiting ++ [⟨interceptor, msg⟩]
  | none => ∃ st line, m.station? t.target = some st ∧ st.lineTo? t.source = some line ∧
      m'.server? t.target = some ((st.server.learnRoutes msg line.link).perform t.frame.type msg)

/-- The mesh once the target of `t` has learned from the path of the message in it. -/
def heeded (m : Mesh) (t : Transit) : Mesh :=
  match m.station? t.target with
  | none => m
  | some st =>
    match st.lineTo? t.source, t.frame.message with
    | some line, .ok msg =>
      if st.server.down then m
      else m.set t.target { st with server := st.server.learnRoutes msg line.link }
    | _, _ => m

/-- The frames that wait at the server `a` for the server `b`. -/
def queue (m : Mesh) (a b : Id) : List Frame := (m.station? a).elim [] (·.queueTo b)

/-- The target of `t` passes the message in it on as `t'`: it is for another server, and the frame gets
into a queue when it arrives, after those for the servers that have been learned from its path. -/
def PassedOn (m : Mesh) (t t' : Transit) : Prop :=
  t.destination?.isSome ∧ t'.source = t.target ∧
    t'.frame ∈ ((m.deliver t).queue t.target t'.target).drop
      ((m.heeded t).queue t.target t'.target).length

instance (m : Mesh) (t t' : Transit) : Decidable (m.PassedOn t t') :=
  inferInstanceAs (Decidable (_ ∧ _ ∧ _))

/-- How a message gets on that has set out as `t₀` in the state `m₀`, while everything happens by a
rule: when `m` is reached it is on its way as `t`, and the servers `via` have passed it on. -/
inductive Journey (rule : Mesh → Move → Prop) (m₀ : Mesh) (t₀ : Transit) :
    List Id → Mesh → Transit → Prop
  | start : Journey rule m₀ t₀ [] m₀ t₀
  | wait {via : List Id} {m : Mesh} {t : Transit} {mv : Move} (h : Journey rule m₀ t₀ via m t)
      (hr : rule m mv) : Journey rule m₀ t₀ via (m.move mv) t
  | pass {via : List Id} {m : Mesh} {t t' : Transit} {place : Nat} (h : Journey rule m₀ t₀ via m t)
      (hr : rule m (.deliver place)) (ht : m.wire[place]? = some t) (hp : m.PassedOn t t') :
      Journey rule m₀ t₀ (via ++ [t.target]) (m.move (.deliver place)) t'

variable {m m' : Mesh} {s d next : Id} {st : Station} {t t' : Transit} {hops k place : Nat}
  {type : MessageType} {msg : Message} {via : List Id} {line : Line} {f : Frame}

/-- A message for one server is on its way to the next hop of its route, if there is space for it. -/
theorem pending_of_carryOut {now : Server} (hid : now.identity = s) (hne : d ≠ s)
    {route : Route} (hroute : now.routes.get? d = some route) (hl : line ∈ st.lines)
    (hpeer : line.peer = some next) (hline : line.link = route.link)
    (hf : now.frame type (msg.appendToPath s) = .ok f)
    (hroomy : (m.set s { st with server := now.carryOut (.toServer d type msg) }).Roomy) :
    (m.set s { st with server := now.carryOut (.toServer d type msg) }).Pending ⟨s, next, f⟩ := by
  subst hid
  have hspace := hroomy.hasSpace station?_set_self hl (by simp [hpeer])
  rw [hline] at hspace
  refine .inr ⟨_, station?_set_self, line, hl, hpeer, ?_⟩
  rw [hline]
  exact Server.mem_waiting_carryOut hne hroute hf hspace

/-- Whatever a server passes on, it only sends. -/
theorem Handles.deliver_other (h : m.Handles t st line msg) (hm : m.Sane)
    (hc : MessageType.isForClients t.frame.type = false) (hd : msg.recipient = some d)
    (hne : d ≠ t.target) :
    m.deliver t = m.set t.target { st with server :=
      (st.server.learnRoutes msg line.link).carryOut (.toServer d t.frame.type msg) } := by
  have hid : (st.server.learnRoutes msg line.link).identity = t.target := by
    rw [Server.identity_learnRoutes]
    exact (hm.wired _ st h.station).identity
  have hdispatch := (st.server.learnRoutes msg line.link).dispatch_of_other m.hooks hc hd
    (by rw [hid]; exact hne)
  rw [h.deliver hm]
  simp only [hdispatch, Option.toList_none, List.append_nil]
  rfl

theorem Handles.untouched (h : m.Handles t st line msg) (hm : m.Sane)
    (hc : MessageType.isForClients t.frame.type = false) (hd : msg.recipient = some d)
    (hne : d ≠ t.target) : m.Untouched (m.deliver t) := by
  obtain ⟨first, hlearned⟩ := st.server.exists_learnRoutes msg line.link
  obtain ⟨last, hsent⟩ := (st.server.learnRoutes msg line.link).exists_carryOut
    (.toServer d t.frame.type msg)
  rw [h.deliver_other hm hc hd hne, hsent, hlearned]
  refine ⟨rfl, fun id => ?_, fun id => ?_⟩
  · unfold server?
    rw [station?_set]
    split
    next he => rw [he, h.station]; rfl
    next => rfl
  · unfold server?
    rw [station?_set]
    split
    next he => rw [he, h.station]; rfl
    next => rfl

theorem Handles.handsOver (h : m.Handles t st line msg) (hm : m.Sane)
    (hc : MessageType.isForClients t.frame.type = false) (hd : msg.recipient = some t.target) :
    m.HandsOver t msg (m.deliver t) := by
  have hid : (st.server.learnRoutes msg line.link).identity = t.target := by
    rw [Server.identity_learnRoutes]
    exact (hm.wired _ st h.station).identity
  have hdispatch := (st.server.learnRoutes msg line.link).dispatch_of_own m.hooks hc
    (Server.otherRecipient?_of_own (by rw [hid]; exact hd))
  rw [hid] at hdispatch
  unfold HandsOver
  rw [h.deliver hm]
  cases hclaim : m.hooks.claim t.target msg with
  | some interceptor =>
    simp only [hdispatch, hclaim, Option.toList_some]
  | none =>
    refine ⟨st, line, h.station, (hm.wired _ st h.station).lineTo?_iff.2 ⟨h.mem, h.peer⟩, ?_⟩
    simp only [hdispatch, hclaim]
    show ((m.set _ _).station? t.target).map _ = _
    rw [station?_set_self]
    rfl

/-- A server that has got a message for another one knows a way on, if it knew one before. -/
theorem Sound.route_on (h : m.Sound) (ht : m.Traced t) (hroom : HasRoom t)
    (hh : m.Handles t st line msg) (hk : m.Knows t.target d k) :
    ∃ j next edge, j < k ∧
      (st.server.learnRoutes msg line.link).routes.get? d = some ⟨.server (j + 1) next, edge⟩ ∧
      (∃ other ∈ st.lines, other.peer = some next ∧ other.link = edge) ∧
      (m.deliver t).Way next d j := by
  obtain ⟨hsound, -⟩ := h.handle ht hroom hh
  have hgrown := hh.grown h.toSane
  obtain ⟨st', hs', hops, next, edge, hget, hle⟩ := hgrown.1.extended.knows _ _ _ hk
  obtain rfl : st.taught msg.path line.link = st' := by
    rw [station?_set_self] at hs'
    exact Option.some.inj hs'
  obtain ⟨hline, j, rfl, hway⟩ := hsound.routes _ _ d hops next edge station?_set_self hget
  refine ⟨j, next, edge, by omega, ?_, hline, hway.mono hgrown.2.extended⟩
  rw [Server.routes_learnRoutes]
  exact hget

/-- The message `msg` of the server `s`, which is for `d` and `hops` away from it at most, has gone
through the servers `via` and is on its way as `t`. -/
structure Underway (m : Mesh) (s d : Id) (hops : Nat) (type : MessageType) (msg : Message)
    (via : List Id) (t : Transit) : Prop where
  sound : m.Sound
  type : t.frame.type = type
  carries : t.frame.Carries { msg with path := s :: via }
  adj : m.graph.Adj t.source t.target
  trail : m.Trail t.source (s :: via)
  chain : (s :: via ++ [t.target]).IsChain m.graph.Adj
  short : via.length < hops
  near : t.target = d ∨ m.Knows t.target d (hops - 1 - via.length)
  apart : d ∉ via
  once : ∀ x, (s :: via).count x ≤ msg.content.visitLimit

theorem Underway.traced (h : m.Underway s d hops type msg via t) : m.Traced t :=
  ⟨_, h.carries, h.adj, h.trail⟩

/-- When the overlay has grown, the message is still on its way. -/
theorem Underway.mono (h : m.Underway s d hops type msg via t) (hs : m'.Sound)
    (he : m.Extends m') : m'.Underway s d hops type msg via t where
  sound := hs
  type := h.type
  carries := h.carries
  adj := he.graph h.adj
  trail := h.trail.mono he
  chain := h.chain.imp fun _ _ hadj => he.graph hadj
  short := h.short
  near := h.near.imp_right (he.knows _ _ _)
  apart := h.apart
  once := h.once

theorem Underway.wait (h : m.Underway s d hops type msg via t) {mv : Move} (ha : m.Admits mv)
    (ho : m.Onward mv) : (m.move mv).Underway s d hops type msg via t :=
  h.mono (h.sound.move ha ho) (h.sound.toSane.move ha).extended

/-- A message on the wire may well stand on it no more. -/
theorem Underway.erase (h : m.Underway s d hops type msg via t) (place : Nat) :
    ({ m with wire := m.wire.eraseIdx place } : Mesh).Underway s d hops type msg via t :=
  h.mono (h.sound.refile rfl (fun _ ht => List.mem_of_mem_eraseIdx ht) h.sound.waiting)
    (extends_of_stations rfl)

/-- Where the frame arrives, the message can be read. -/
theorem Underway.handles (h : m.Underway s d hops type msg via t) (hf : msg.Fits)
    (hs : m.station? t.target = some st) (hup : st.server.down = false) :
    ∃ line, m.Handles t st line { msg with path := s :: via } := by
  obtain ⟨st', hs', line, hl, hpeer⟩ := linked_iff.1 (h.sound.adj_iff.1 h.adj.symm)
  obtain rfl : st = st' := Option.some.inj (hs.symm.trans hs')
  exact ⟨line, hs, hl, hpeer, hup, h.carries.message_of_fits hf⟩

theorem queue_set {a b : Id} {st : Station} : (m.set a st).queue a b = st.queueTo b := by
  simp [queue, station?_set_self]

theorem Handles.heeded (h : m.Handles t st line msg) (hm : m.Sane) : m.heeded t =
    m.set t.target { st with server := st.server.learnRoutes msg line.link } := by
  have hto : st.lineTo? t.source = some line :=
    (hm.wired _ st h.station).lineTo?_iff.2 ⟨h.mem, h.peer⟩
  simp [Mesh.heeded, h.station, hto, h.read, h.up]

/-- A message is passed on where it can be read. -/
theorem Sane.handles_of_passedOn (h : m.Sane) (hp : m.PassedOn t t') :
    ∃ st line msg, m.Handles t st line msg := by
  by_contra hno
  have hdeliver := (h.deliver_cases t).resolve_right hno
  have hheeded : m.heeded t = m := by
    unfold Mesh.heeded
    split
    next => rfl
    next st hs =>
      split
      next line msg hto hread =>
        split
        next => rfl
        next hup =>
          obtain ⟨hl, hpeer⟩ := (h.wired _ st hs).lineTo?_iff.1 hto
          exact absurd ⟨st, line, msg, hs, hl, hpeer, by simpa using hup, hread⟩ hno
      next => rfl
  obtain ⟨-, -, hmem⟩ := hp
  rw [hdeliver, hheeded, List.drop_length] at hmem
  exact List.not_mem_nil hmem

/-- What is passed on goes along the route that its holder has when it has learned from the path, to
whoever is at the other end of the connection. -/
theorem Handles.passedOn_iff (h : m.Handles t st line msg) (hm : m.Sane)
    (hc : MessageType.isForClients t.frame.type = false) (hd : msg.recipient = some d)
    (hne : d ≠ t.target) : m.PassedOn t t' ↔ t'.source = t.target ∧
      ∃ route out outbox, (st.server.learnRoutes msg line.link).routes.get? d = some route ∧
        st.server.frame t.frame.type (msg.appendToPath t.target) = .ok t'.frame ∧
        (st.server.learnRoutes msg line.link).outbox.push route.link t'.frame = .ok outbox ∧
        out ∈ st.lines ∧ out.peer = some t'.target ∧ out.link = route.link := by
  have hwired := hm.wired _ st h.station
  have hid : (st.server.learnRoutes msg line.link).identity = t.target := by
    rw [Server.identity_learnRoutes]
    exact hwired.identity
  have hdest : t.destination? = some d :=
    Transit.destination?_eq_some_iff.2 ⟨msg, h.read, hc, hd, hne⟩
  unfold PassedOn
  rw [h.deliver_other hm hc hd hne, h.heeded hm, queue_set, queue_set, hdest]
  simp only [Option.isSome_some, true_and]
  rw [hwired.mem_drop_carryOut hid hne, Server.frame_learnRoutes]

/-- A server that the message is not for passes it on to one that is nearer to its destination, and to
nobody else. -/
theorem Underway.passes (h : m.Underway s d hops type msg via t) (hd : msg.recipient = some d)
    (hc : MessageType.isForClients type = false) (hroom : HasRoom t)
    (hh : m.Handles t st line { msg with path := s :: via }) (hne : d ≠ t.target)
    (hf : st.server.frame type ({ msg with path := s :: via ++ [t.target] } : Message) = .ok f) :
    ∃ next, (∀ t', m.PassedOn t t' → t' = ⟨t.target, next, f⟩) ∧
      (m.deliver t).Underway s d hops type msg (via ++ [t.target]) ⟨t.target, next, f⟩ ∧
      ((m.deliver t).Roomy → m.PassedOn t ⟨t.target, next, f⟩ ∧
        (m.deliver t).Pending ⟨t.target, next, f⟩) := by
  have hsane := h.sound.toSane
  have hwired := hsane.wired _ st hh.station
  have hknows := h.near.resolve_left (Ne.symm hne)
  obtain ⟨j, next, edge, hj, hroute, ⟨other, ho, hopeer, hover⟩, hway⟩ :=
    h.sound.route_on h.traced hroom hh hknows
  have hcount := hroom _ hh.read
  have happend : ({ msg with path := s :: via } : Message).appendToPath t.target =
      { msg with path := s :: via ++ [t.target] } := if_pos hcount
  have hc' : MessageType.isForClients t.frame.type = false := h.type ▸ hc
  have hid : (st.server.learnRoutes { msg with path := s :: via } line.link).identity =
      t.target := by
    rw [Server.identity_learnRoutes]
    exact hwired.identity
  have hfits : st.server.frame t.frame.type
      (({ msg with path := s :: via } : Message).appendToPath t.target) = .ok f := by
    rw [happend, h.type]
    exact hf
  refine ⟨next, fun t' hp => ?_, ?_, fun hroomy => ?_⟩
  · obtain ⟨hsource, route, out, outbox, hget, hf', -, hl, hpeer, hlink⟩ :=
      (hh.passedOn_iff hsane hc' hd hne).1 hp
    obtain rfl := Option.some.inj (hget.symm.trans hroute)
    obtain rfl := hwired.eq_of_link hl ho (hlink.trans hover.symm)
    obtain ⟨source, target, frame⟩ := t'
    obtain rfl : source = t.target := hsource
    obtain rfl : target = next := Option.some.inj (hpeer.symm.trans hopeer)
    obtain rfl : frame = f := Except.ok.inj (hf'.symm.trans hfits)
    rfl
  · obtain ⟨-, hready⟩ := h.sound.handle h.traced hroom hh
    have hgrown := (hh.grown hsane)
    have hextended := (hsane.deliver t).extended
    have hon : m.graph.Adj t.target next :=
      hsane.adj_iff.2 (linked_iff.2 ⟨st, hh.station, other, ho, hopeer⟩)
    exact {
      sound := h.sound.deliver h.traced hroom
      type := Frame.type_of_ofMessage hf
      carries := Frame.carries_of_ofMessage hf
      adj := hextended.graph hon
      trail := hready.trail.mono hgrown.2.extended
      chain := by
        rw [← List.cons_append, List.isChain_append]
        refine ⟨h.chain.imp fun _ _ hadj => hextended.graph hadj, List.isChain_singleton _, ?_⟩
        intro x hx y hy
        obtain rfl : t.target = x := by
          rw [List.getLast?_concat] at hx
          exact Option.some.inj hx
        obtain rfl : next = y := Option.some.inj hy
        exact hextended.graph hon
      short := by
        rw [List.length_append, List.length_singleton]
        omega
      near := by
        refine hway.knows.imp Eq.symm fun hk => hk.mono ?_
        rw [List.length_append, List.length_singleton]
        omega
      apart := by
        rw [List.mem_append, List.mem_singleton]
        exact not_or.2 ⟨h.apart, hne⟩
      once := fun x => by
        have hx := h.once x
        have hcount' : (s :: via).count t.target < msg.content.visitLimit := hcount
        rw [← List.cons_append, List.count_append, List.count_singleton]
        by_cases he : t.target = x
        · subst he
          simp only [beq_self_eq_true, if_true]
          omega
        · simp only [beq_iff_eq, he, if_false]
          omega }
  · rw [hh.deliver_other hsane hc' hd hne] at hroomy ⊢
    have hspace := hroomy.hasSpace station?_set_self ho (by simp [hopeer])
    rw [hover] at hspace
    obtain ⟨outbox, hpush⟩ := Server.exists_push_of_carryOut hspace f
    refine ⟨(hh.passedOn_iff hsane hc' hd hne).2
      ⟨rfl, _, other, outbox, hroute, hfits, hpush, ho, hopeer, hover⟩, ?_⟩
    refine pending_of_carryOut hid hne hroute ho hopeer hover ?_ hroomy
    rw [Server.frame_learnRoutes]
    exact hfits

theorem hasRoom_of_onward (ht : m.wire[place]? = some t) (ho : m.Onward (.deliver place)) :
    HasRoom t := fun msg hmsg => ho t ht msg (by rw [hmsg]; rfl)

theorem deliver_wire (m : Mesh) (wire : List Transit) (t : Transit) :
    ({ m with wire } : Mesh).deliver t = { m.deliver t with wire } := by
  unfold deliver arrive
  cases hline : (m.station? t.target).bind (·.lineTo? t.source) with
  | none => simp only [show ({ m with wire } : Mesh).station? = m.station? from rfl, hline]
  | some line =>
    simp only [show ({ m with wire } : Mesh).station? = m.station? from rfl, hline]
    cases m.station? t.target <;> rfl

/-- It makes no difference to a frame what else is on the wire. -/
theorem passedOn_wire {wire : List Transit} :
    ({ m with wire } : Mesh).PassedOn t t' ↔ m.PassedOn t t' := by
  have hheeded : ({ m with wire } : Mesh).heeded t = { m.heeded t with wire } := by
    unfold heeded
    simp only [show ({ m with wire } : Mesh).station? = m.station? from rfl]
    split
    next => rfl
    next st hs =>
      split
      next => split <;> rfl
      next => rfl
  unfold PassedOn
  rw [deliver_wire, hheeded]
  exact Iff.rfl

/-- A message for one server gets nearer to it with every server that passes it on. -/
theorem Journey.underway {m₀ : Mesh} {t₀ : Transit} 
    (h : Journey (fun m mv => m.Admits mv ∧ m.Onward mv) m₀ t₀ via m t)
    (h₀ : m₀.Underway s d hops type msg [] t₀) (hd : msg.recipient = some d) (hf : msg.Fits)
    (hc : MessageType.isForClients type = false) : m.Underway s d hops type msg via t := by
  induction h with
  | start => exact h₀
  | wait _ hr ih => exact ih.wait hr.1 hr.2
  | @pass via m t t' place _ hr ht hp ih =>
    have ho := hr.2
    have hroom := hasRoom_of_onward ht ho
    have herased := ih.erase place
    have hp' : ({ m with wire := m.wire.eraseIdx place } : Mesh).PassedOn t t' :=
      passedOn_wire.2 hp
    have hsane := herased.sound.toSane
    obtain ⟨st, line, read, hh⟩ := hsane.handles_of_passedOn hp'
    obtain rfl : { msg with path := s :: via } = read :=
      Except.ok.inj ((ih.carries.message_of_fits hf).symm.trans hh.read)
    obtain ⟨dest, hdest⟩ := Option.isSome_iff_exists.1 hp'.1
    obtain ⟨read, hread, hc', hrecipient, hne⟩ := Transit.destination?_eq_some_iff.1 hdest
    obtain rfl := Except.ok.inj (hread.symm.trans hh.read)
    obtain rfl : dest = d := Option.some.inj (hrecipient.symm.trans hd)
    obtain ⟨-, -, -, -, -, hfits, -⟩ := (hh.passedOn_iff hsane hc' hd hne).1 hp'
    have happend : ({ msg with path := s :: via } : Message).appendToPath t.target =
        { msg with path := s :: via ++ [t.target] } := if_pos (hroom _ hh.read)
    rw [happend, ih.type] at hfits
    obtain ⟨next, honly, hnext, -⟩ := herased.passes hd hc hroom hh hne hfits
    rw [honly t' hp']
    have hmove : m.move (.deliver place) =
        (({ m with wire := m.wire.eraseIdx place } : Mesh).deliver t).settle.1 := by
      rw [move, effect_deliver ht]
    have hsound : (m.move (.deliver place)).Sound := ih.sound.move trivial ho
    rw [hmove] at hsound ⊢
    exact hnext.mono hsound hnext.sound.toSane.settle.extended

/-- A message sets out on the route of its sender. -/
theorem Sound.underway (h : m.Sound) (hs : m.station? s = some st) {link : LinkId}
    (hget : st.server.routes.get? d = some ⟨.server hops next, link⟩) (hpath : msg.path = [])
    (hf : st.server.frame type (msg.appendToPath s) = .ok f) :
    m.Underway s d hops type msg [] ⟨s, next, f⟩ := by
  obtain ⟨⟨line, hl, hpeer, -⟩, k, rfl, hway⟩ := h.routes s st d hops next link hs hget
  have hcount : msg.path.count s < msg.content.visitLimit := by
    rw [hpath]
    exact visitLimit_pos _
  have happend : msg.appendToPath s = { msg with path := [s] } := by
    unfold Message.appendToPath
    rw [if_pos hcount, hpath]
    rfl
  rw [happend] at hf
  have hadj : m.graph.Adj s next := h.adj_iff.2 (linked_iff.2 ⟨st, hs, line, hl, hpeer⟩)
  exact {
    sound := h
    type := Frame.type_of_ofMessage hf
    carries := Frame.carries_of_ofMessage hf
    adj := hadj
    trail := m.trail_start s
    chain := List.isChain_pair.2 hadj
    short := Nat.succ_pos k
    near := hway.knows.imp Eq.symm id
    apart := List.not_mem_nil
    once := fun x => Nat.le_trans List.count_le_length (visitLimit_pos _) }

/-- What becomes of the message where it arrives. -/
theorem Underway.arrives (h : m.Underway s d hops type msg via t) (hd : msg.recipient = some d)
    (hf : msg.Fits) (hc : MessageType.isForClients type = false)
    (ht : m.wire[place]? = some t) (ho : m.Onward (.deliver place))
    (hs : m.station? t.target = some st) (hup : st.server.down = false) :
    if t.target = d then
      m.HandsOver t { msg with path := s :: via } (m.effect (.deliver place))
    else
      m.Untouched (m.effect (.deliver place)) ∧
        ∀ f, st.server.frame type { msg with path := s :: via ++ [t.target] } = .ok f →
          (m.effect (.deliver place)).Roomy →
          ∃ next, (∀ t', m.PassedOn t t' ↔ t' = ⟨t.target, next, f⟩) ∧
            (m.move (.deliver place)).Pending ⟨t.target, next, f⟩ := by
  have herased := h.erase place
  have hsane := herased.sound.toSane
  obtain ⟨line, hh⟩ := herased.handles hf hs hup
  have hc' : MessageType.isForClients t.frame.type = false := by rw [h.type]; exact hc
  rw [move, effect_deliver ht]
  split
  next he => exact hh.handsOver hsane hc' (he ▸ hd)
  next hne =>
    have hne' : d ≠ t.target := fun he => hne he.symm
    obtain ⟨hwaiting, helection, hexclusion⟩ := hh.untouched hsane hc' hd hne'
    refine ⟨⟨hwaiting, helection, hexclusion⟩, fun f hfits hroomy => ?_⟩
    obtain ⟨next, honly, hnext, hpasses⟩ :=
      herased.passes hd hc (hasRoom_of_onward ht ho) hh hne' hfits
    obtain ⟨hpassed, hpending⟩ := hpasses hroomy
    refine ⟨next, fun t' => ⟨fun hp => honly t' (passedOn_wire.2 hp), ?_⟩,
      hnext.sound.toSane.pending_settle hpending⟩
    rintro rfl
    exact passedOn_wire.1 hpassed

/-- In an overlay that grows, as long as no message comes to a server that its path has no room for:
the next hop of a route is its destination or has a route of fewer hops. A message along a route of
`hops` hops is passed on by fewer than `hops` servers, and by none of them more often than its kind
allows, which is once for all but announcements. Wherever it arrives on its way, it is passed on and
leaves the algorithms of all servers alone; at its destination, and nowhere else, it is handed
over. -/
theorem addressed_arrives (servers : List Id) (config : Config) (interceptors : List Interceptor)
    (enabled : Bool) (moves : List Move)
    (ha : (Mesh.new servers config interceptors enabled).Obeys Admits moves)
    (ho : (Mesh.new servers config interceptors enabled).Obeys Onward moves) :
    let m := (Mesh.new servers config interceptors enabled).play moves
    ∀ s st d hops next link, m.station? s = some st →
      st.server.routes.get? d = some ⟨.server hops next, link⟩ →
      (next = d ∨ m.Knows next d (hops - 1)) ∧
      ∀ type msg f, MessageType.isForClients type = false → msg.path = [] →
        msg.recipient = some d → msg.Fits → st.server.frame type (msg.appendToPath s) = .ok f →
        let send := Move.step (.at s (.command (.send d type msg)))
        ((m.effect send).Roomy → (m.move send).Pending ⟨s, next, f⟩) ∧
        ∀ via m' t,
          Journey (fun m mv => m.Admits mv ∧ m.Onward mv) (m.move send) ⟨s, next, f⟩ via m' t →
          via.length < hops ∧ d ∉ via ∧ (∀ x, (s :: via).count x ≤ msg.content.visitLimit) ∧
          ∀ place st', m'.wire[place]? = some t → m'.Onward (.deliver place) →
            m'.station? t.target = some st' → st'.server.down = false →
            if t.target = d then
              m'.HandsOver t { msg with path := s :: via } (m'.effect (.deliver place))
            else
              m'.Untouched (m'.effect (.deliver place)) ∧
                ∀ f', st'.server.frame type { msg with path := s :: via ++ [t.target] } = .ok f' →
                  (m'.effect (.deliver place)).Roomy →
                  ∃ next', (∀ t', m'.PassedOn t t' ↔ t' = ⟨t.target, next', f'⟩) ∧
                    (m'.move (.deliver place)).Pending ⟨t.target, next', f'⟩ := by
  intro m s st d hops next link hs hget
  have h : m.Sound := (sound_new servers config interceptors enabled).play ha ho
  have hwired := h.wired s st hs
  obtain ⟨⟨line, hl, hpeer, hline⟩, k, rfl, hway⟩ := h.routes s st d hops next link hs hget
  refine ⟨hway.knows.imp Eq.symm id, ?_⟩
  intro type msg f hc hpath hd hfits hf send
  refine ⟨fun hroomy => ?_, fun via m' t hj => ?_⟩
  · have hne : d ≠ s := by
      rintro rfl
      rw [hwired.noSelf] at hget
      cases hget
    have heffect : m.effect send = m.set s
        { st with server := st.server.carryOut (.toServer d type msg) } := by
      rw [effect_at hs]
      simp only [actAt, Server.obey_send]
    have hsends : st.server.Sends none (st.server.carryOut (.toServer d type msg)) :=
      Server.sends_carryOut st.server (.inl hpath)
    rw [move, heffect]
    rw [heffect] at hroomy
    exact (h.toSane.act hs hsends).sane.pending_settle
      (pending_of_carryOut hwired.identity hne hget hl hpeer hline hf hroomy)
  · have hadmits : m.Admits send := fun st' _ msg' hmsg' => by
      cases hmsg'
      exact hpath
    have hsent := (h.underway hs hget hpath hf).wait hadmits trivial
    have hway := hj.underway hsent hd hfits hc
    exact ⟨hway.short, hway.apart, hway.once, fun place st' ht ho' hs' hup =>
      hway.arrives hd hfits hc ht ho' hs' hup⟩

/-- A message of the server `s` for the server `d`, with the servers `path` on its path. -/
def greeting (s d : Id) (path : List Id) : Message := ⟨s, path, some d, .electionToken s⟩

/-- The frame with it that goes from `a` to `b`. -/
def greetingFrom (s d : Id) (path : List Id) (a b : Id) : Transit :=
  ⟨a, b, ⟨MessageType.electionToken, a, Wire.encodeMessage (greeting s d path)⟩⟩

def greet (s d : Id) : Move :=
  .step (.at s (.command (.send d MessageType.electionToken (greeting s d []))))

theorem addressed_arrives_hello :
    let m := (Mesh.new [1, 2, 3] {} [] false).play hello
    let sent := m.move (greet 1 3)
    (Mesh.new [1, 2, 3] {} [] false).Obeys Admits hello ∧
      (Mesh.new [1, 2, 3] {} [] false).Obeys Onward hello ∧
      (m.server? 1).bind (·.routes.get? 3) = some ⟨.server 2 2, 0⟩ ∧
      sent.Pending (greetingFrom 1 3 [1] 1 2) ∧ sent.Untouched (sent.effect (.deliver 2)) ∧
      (sent.move (.deliver 2)).Pending (greetingFrom 1 3 [1, 2] 2 3) := by
  intro m sent
  have ha : (Mesh.new [1, 2, 3] {} [] false).Obeys Admits hello := by decide +kernel
  have ho : (Mesh.new [1, 2, 3] {} [] false).Obeys Onward hello := by decide +kernel
  have hroute : (m.server? 1).bind (·.routes.get? 3) = some ⟨.server 2 2, 0⟩ := by decide +kernel
  have hfirst : (m.server? 1).map (·.frame MessageType.electionToken (greeting 1 3 [1])) =
    some (.ok (greetingFrom 1 3 [1] 1 2).frame) := by decide +kernel
  have hnext : (sent.server? 2).map
      (fun s => (s.down, s.frame MessageType.electionToken (greeting 1 3 [1, 2]))) =
    some (false, .ok (greetingFrom 1 3 [1, 2] 2 3).frame) := by decide +kernel
  obtain ⟨server, hserver, hget⟩ := Option.bind_eq_some_iff.1 hroute
  obtain ⟨st, hs, rfl⟩ := Option.map_eq_some_iff.1 hserver
  rw [hserver, Option.map_some] at hfirst
  obtain ⟨server', hserver', hnext⟩ := Option.map_eq_some_iff.1 hnext
  obtain ⟨st', hs', rfl⟩ := Option.map_eq_some_iff.1 hserver'
  obtain ⟨-, harrives⟩ :=
    addressed_arrives [1, 2, 3] {} [] false hello ha ho 1 st 3 2 2 0 hs hget
  obtain ⟨hpending, hway⟩ := harrives MessageType.electionToken (greeting 1 3 [])
    (greetingFrom 1 3 [1] 1 2).frame (by decide) rfl rfl trivial (Option.some.inj hfirst)
  obtain ⟨-, -, -, harrive⟩ := hway [] sent (greetingFrom 1 3 [1] 1 2) .start
  obtain ⟨huntouched, hon⟩ := harrive 2 st' (by decide +kernel) (by decide +kernel) hs'
    (congrArg Prod.fst hnext)
  obtain ⟨next, hpassed, hnext⟩ := hon (greetingFrom 1 3 [1, 2] 2 3).frame
    (congrArg Prod.snd hnext) (by decide +kernel)
  have hthree : sent.PassedOn (greetingFrom 1 3 [1] 1 2) (greetingFrom 1 3 [1, 2] 2 3) := by
    decide +kernel
  rw [← (hpassed _).1 hthree] at hnext
  exact ⟨ha, ho, hroute, hpending (by decide +kernel), huntouched, hnext⟩

/-- After the detour the route of server 5 to server 2 has one hop, and yet server 1 passes the message
on. -/
theorem detour_needs_server :
    let m := (Mesh.new [1, 2, 3, 4, 5] {} [] false).play detour
    let sent := m.move (greet 5 2)
    (Mesh.new [1, 2, 3, 4, 5] {} [] false).Obeys Admits detour ∧
      (m.server? 5).bind (·.routes.get? 2) = some ⟨.server 1 2, 1⟩ ∧
      sent.wire[10]? = some (greetingFrom 5 2 [5] 5 1) ∧
      sent.PassedOn (greetingFrom 5 2 [5] 5 1) (greetingFrom 5 2 [5, 1] 1 2) := by
  intro m sent
  refine ⟨?_, ?_, ?_, ?_⟩ <;> decide +kernel

end Mesh

end RelayMesh
