import RelayMesh.Proofs.Chat.Setup
import RelayMesh.Proofs.Mesh.Guidance

namespace RelayMesh

namespace Frame

/-- The frame has the type of announcements, or one that is for clients. -/
def IsGossip (f : Frame) : Prop :=
  f.type = MessageType.identity ∨ MessageType.isForClients f.type = true

/-- The frame carries a message of the type that has gone along the path. -/
def IsCopy (f : Frame) (type : MessageType) (path : List Id) : Prop :=
  f.type = type ∧ ∃ msg, f.Carries msg ∧ msg.path = path

end Frame

namespace Server

/-- The server sends frames with a property, and sets no timer. -/
structure Tells (P : LinkId → Frame → Prop) (s s' : Server) : Prop where
  timers : s'.timers = s.timers
  outbox : s.outbox.Grows P s'.outbox

variable {P Q : LinkId → Frame → Prop} {s s' s'' : Server} {msg : Message} {type : MessageType}

theorem tells_refl (P : LinkId → Frame → Prop) (s : Server) : Tells P s s :=
  ⟨rfl, Outbox.grows_refl P _⟩

theorem Tells.trans (h : Tells P s s') (h' : Tells P s' s'') : Tells P s s'' :=
  ⟨h'.timers.trans h.timers, h.outbox.trans h'.outbox⟩

theorem Tells.mono (h : Tells P s s') (hq : ∀ link f, P link f → Q link f) : Tells Q s s' :=
  ⟨h.timers, h.outbox.mono hq⟩

theorem tells_carryOut (s : Server) {o : Outgoing}
    (h : ∀ link f, s.frame o.type (o.message.appendToPath s.identity) = .ok f → P link f) :
    Tells P s (s.carryOut o) := by
  refine ⟨?_, s.grows_carryOut h⟩
  obtain ⟨outbox, hsent⟩ := s.exists_carryOut o
  rw [hsent]

theorem tells_flood (s : Server) (except : Option Id)
    (h : ∀ link f, s.frame type (msg.appendToPath s.identity) = .ok f → P link f) :
    Tells P s (s.flood except type msg).1 := tells_carryOut s (o := .flood except type msg) h

theorem tells_toServer (s : Server) (dest : Id)
    (h : ∀ link f, s.frame type (msg.appendToPath s.identity) = .ok f → P link f) :
    Tells P s (s.carryOut (.toServer dest type msg)) := tells_carryOut s h

/-- What a server writes about a message: whatever goes to clients, and copies of it that have gone
one server further. -/
def Copies (s : Server) (type : MessageType) (msg : Message) (link : LinkId) (f : Frame) : Prop :=
  (∃ id, s.routes.get? id = some ⟨.client, link⟩) ∨
    f.IsCopy type (msg.appendToPath s.identity).path

theorem copies_of_frame {out : Message} (hpath : out.path = (msg.appendToPath s.identity).path)
    {f : Frame} (hf : s.frame type out = .ok f) (link : LinkId) : s.Copies type msg link f :=
  .inr ⟨Frame.type_of_ofMessage hf, out, Frame.carries_of_ofMessage hf, hpath⟩

theorem tells_relayChat (s : Server) (type : MessageType) (msg : Message) :
    Tells (s.Copies type msg) s (s.relayChat type msg) := by
  refine ⟨?_, s.grows_relayChat (fun id _ _ hget _ => .inl ⟨id, hget⟩)
    fun link f hf => copies_of_frame rfl hf link⟩
  obtain ⟨first, hflood⟩ := s.exists_carryOut (.flood (some msg.sender) type msg)
  have hflood : (s.flood (some msg.sender) type msg).1 = { s with outbox := first } := hflood
  obtain ⟨lastChat, last, hclients⟩ :=
    exists_floodClients { s with outbox := first } (some msg.sender) type msg
  rw [relayChat, hflood, hclients]

/-- An announcement that is for everybody from now on goes on, and a message of another kind under its
type is dropped. -/
theorem tells_perform_identity (s : Server) (msg : Message) :
    Tells (s.Copies MessageType.identity msg) s (s.perform MessageType.identity msg) := by
  have haction : Action.ofType? MessageType.identity =
      some ⟨"IDENTITY_MESSAGE", MessageType.identity, .identity⟩ := by decide
  unfold perform execute
  simp only [haction]
  by_cases hkind : msg.content.kind = .identity
  · rw [if_pos hkind]
    refine tells_flood s none fun link f hf => copies_of_frame ?_ hf link
    unfold Message.appendToPath
    split <;> rfl
  · rw [if_neg hkind]
    exact tells_refl _ s

/-- About an announcement or a chat line that arrives a server sends copies of it only. -/
theorem tells_dispatch {hooks : Interception} (hh : hooks.enabled = false) (s : Server)
    (ht : type = MessageType.identity ∨ MessageType.isForClients type = true) (msg : Message) :
    Tells (s.Copies type msg) s (s.dispatch hooks type msg).1 := by
  unfold dispatch
  split
  · exact tells_relayChat s type msg
  next hservers =>
    obtain rfl := ht.resolve_right hservers
    split
    next dest _ => exact tells_toServer s dest fun link f hf => copies_of_frame rfl hf link
    · have hclaim : hooks.claim s.identity msg = none := by simp [Interception.claim, hh]
      rw [hclaim]
      exact tells_perform_identity s msg

/-- About new routes a server sends announcements. -/
theorem tells_learnRoutes (s : Server) (msg : Message) (link : LinkId) :
    Tells (fun _ f => f.type = MessageType.identity) s (s.learnRoutes msg link) := by
  refine ⟨?_, s.grows_learnRoutes link fun _ _ _ _ hf => Frame.type_of_ofMessage hf⟩
  obtain ⟨_, h⟩ := s.exists_learnRoutes msg link
  rw [h]

theorem tells_announce (s : Server) :
    Tells (fun _ f => f.type = MessageType.identity) s s.announce :=
  tells_flood s none fun _ _ hf => Frame.type_of_ofMessage hf

/-- From a client only chat is relayed. -/
theorem tells_arrive_client (hooks : Interception) {link : LinkId} {f : Frame}
    (hr : ∀ r, s.routes.atLink link = some r → r.2.isClient = true) :
    Tells (fun edge g => (∃ id, s.routes.get? id = some ⟨.client, edge⟩) ∨ g.IsGossip) s
      (s.arrive hooks link f).1 := by
  unfold arrive
  split
  · exact tells_refl _ s
  · unfold handleFrame
    split
    next id route msg hat hmsg =>
      have hc : route.isClient = true := hr (id, route) hat
      simp only [hc, if_true]
      split
      next hchat =>
        refine (tells_relayChat s f.type msg).mono fun _ _ => Or.imp_right fun hcopy => .inr ?_
        rw [hcopy.1]
        exact hchat.1
      · exact tells_refl _ s
    next => exact tells_refl _ s

end Server

namespace Mesh

/-- What starts announcements and chat, or lets them get on. -/
def Move.gossips : Move → Bool
  | .join _ _ => true
  | .deliver _ => true
  | .step (.at _ (.command .announce)) => true
  | .step (.at _ (.client _ _)) => true
  | .step (.at _ (.frame _ _ _)) => true
  | _ => false

/-- Servers get connected, clients register and say something, servers announce themselves, and frames
arrive. -/
def Triggers (m : Mesh) (mv : Move) : Prop := m.Admits mv ∧ mv.gossips = true

instance (m : Mesh) (mv : Move) : Decidable (m.Triggers mv) :=
  inferInstanceAs (Decidable (_ ∧ _))

/-- Nothing goes on but announcements and chat. -/
structure Gossips (m : Mesh) : Prop where
  hooks : m.hooks.enabled = false
  waiting : m.waiting = []
  timers : ∀ id st, m.station? id = some st → st.server.timers = []
  pending : ∀ t, m.Pending t → t.frame.IsGossip

variable {m m' : Mesh} {id a b : Id} {st st' : Station} {sa sb : Station} {t : Transit}
  {P : LinkId → Frame → Prop} {s : Server} {f : Frame} {mv : Move}

theorem Move.gossips_cases (h : mv.gossips = true) :
    (∃ a b, mv = .join a b) ∨ (∃ place, mv = .deliver place) ∨ (∃ id, mv = announcement id) ∨
      (∃ id label options, mv = .step (.at id (.client label options))) ∨
        ∃ id label options f, mv = .step (.at id (.frame label options f)) := by
  unfold Move.gossips at h
  split at h
  · exact .inl ⟨_, _, rfl⟩
  · exact .inr (.inl ⟨_, rfl⟩)
  · exact .inr (.inr (.inl ⟨_, rfl⟩))
  · exact .inr (.inr (.inr (.inl ⟨_, _, _, rfl⟩)))
  · exact .inr (.inr (.inr (.inr ⟨_, _, _, _, rfl⟩)))
  · cases h

/-- A frame on its way was so before, or the server has just written it. -/
theorem pending_of_pending_tells (hs : m.station? id = some st) (h : st.server.Tells P s)
    (ht : (m.set id { st with server := s }).Pending t) : m.Pending t ∨
      t.source = id ∧ ∃ line ∈ st.lines, line.peer = some t.target ∧ P line.link t.frame := by
  rcases ht with hwire | ⟨new, hnew, line, hl, hpeer, hf⟩
  · exact .inl (.inl hwire)
  · rw [station?_set] at hnew
    split at hnew
    next he =>
      obtain rfl := Option.some.inj hnew
      obtain ⟨frames, hq, hp⟩ := h.outbox.queues line.link
      rw [hq] at hf
      rcases List.mem_append.1 hf with hold | hadded
      · exact .inl (.inr ⟨st, he ▸ hs, line, hl, hpeer, hold⟩)
      · exact .inr ⟨he, line, hl, hpeer, hp _ hadded⟩
    next => exact .inl (.inr ⟨new, hnew, line, hl, hpeer, hf⟩)

namespace Gossips

/-- A server sends more of the same. -/
theorem set (h : m.Gossips) (hm : m.Sane) (hs : m.station? id = some st)
    (ht : st.server.Tells (fun link f => (∃ c, st.server.routes.get? c = some ⟨.client, link⟩) ∨
      f.IsGossip) s) : (m.set id { st with server := s }).Gossips where
  hooks := h.hooks
  waiting := h.waiting
  timers other new hnew := by
    rw [station?_set] at hnew
    split at hnew
    · obtain rfl := Option.some.inj hnew
      exact ht.timers.trans (h.timers id st hs)
    · exact h.timers other new hnew
  pending t hp := by
    rcases pending_of_pending_tells hs ht hp with
      hold | ⟨-, line, hl, hpeer, ⟨c, hc⟩ | hgossip⟩
    · exact h.pending t hold
    · have hnone := ((hm.wired id st hs).clients c line.link hc).2 line hl rfl
      rw [hpeer] at hnone
      cases hnone
    · exact hgossip

/-- Once what follows from a move has happened, the queues are empty, and that is all. -/
theorem settle_eq (h : m.Gossips) (hm : m.Sane) :
    m.settle.1 = (m.collectEach m.stations.keys).1 := by
  have hexpire : m.expire = m :=
    updateAll_eq fun id st hs => Server.expire_of_not_due (by simp [h.timers id st hs])
  rw [hm.settle_eq h.waiting, collect, hexpire]

theorem settle (h : m.Gossips) (hm : m.Sane) : m.settle.1.Gossips := by
  have hcollects := collects_collectEach hm.orderly m.stations.keys
  rw [h.settle_eq hm]
  refine ⟨by rw [hcollects.hooks, h.hooks], hcollects.waiting.trans h.waiting,
    fun id st' hs' => ?_, fun t ht => h.pending t ((hcollects.pending t).1 ht)⟩
  obtain ⟨outbox, hsame⟩ := m.station?_collectEach m.stations.keys id
  rw [hsame] at hs'
  obtain ⟨st, hs, rfl⟩ := Option.map_eq_some_iff.1 hs'
  exact h.timers id st hs

theorem join (h : m.Gossips) (hab : m.Strangers a b sa sb) : (m.join a b).Gossips where
  hooks := by simpa [Mesh.join, joinOneWay] using h.hooks
  waiting := by simpa [Mesh.join, joinOneWay] using h.waiting
  timers id st' hs' := by
    rcases hab.cases hs' with ⟨st, d, hs, rfl, -, -⟩ | hs
    · exact h.timers id st hs
    · exact h.timers id st' hs
  pending t ht := h.pending t (hab.pending_of_join ht)

theorem erase (h : m.Gossips) (place : Nat) :
    ({ m with wire := m.wire.eraseIdx place } : Mesh).Gossips where
  hooks := h.hooks
  waiting := h.waiting
  timers := h.timers
  pending t ht := h.pending t (ht.imp_left List.mem_of_mem_eraseIdx)

theorem deliver (h : m.Gossips) (hm : m.Sane) (ht : t.frame.IsGossip) : (m.deliver t).Gossips := by
  rcases hm.deliver_cases t with hsame | ⟨st, line, msg, hh⟩
  · rwa [hsame]
  · rw [hh.deliver_open hm h.hooks]
    have hclients := (Server.hush_learnRoutes st.server msg line.link).clients
    refine h.set hm hh.station (Server.Tells.trans
      ((Server.tells_learnRoutes st.server msg line.link).mono fun _ _ hf => .inr (.inl hf))
      ((Server.tells_dispatch h.hooks _ ht msg).mono fun link f hcopies => ?_))
    refine hcopies.imp (fun ⟨c, hc⟩ => ⟨c, (hclients c link).1 hc⟩) fun hcopy => ?_
    rw [Frame.IsGossip, hcopy.1]
    exact ht

/-- A connection is made for whatever is no server. -/
theorem connect (h : m.Gossips) (hs : m.station? id = some st) (label : String) (capacity : Nat)
    (held : Bool) : (m.set id (st.connect label none capacity held).1).Gossips where
  hooks := h.hooks
  waiting := h.waiting
  timers other new hnew := by
    rw [station?_set] at hnew
    split at hnew
    · obtain rfl := Option.some.inj hnew
      exact h.timers id st hs
    · exact h.timers other new hnew
  pending t ht := h.pending t (pending_of_pending_set hs ht
    fun _ _ => Station.queues_of_queues_connect)

theorem attach (h : m.Gossips) (hs : m.station? id = some st) (label : Option String)
    (options : QueueOptions) : (m.set id (st.attached label options)).Gossips where
  hooks := h.hooks
  waiting := h.waiting
  timers other new hnew := by
    rw [station?_set] at hnew
    split at hnew
    · obtain rfl := Option.some.inj hnew
      exact h.timers id st hs
    · exact h.timers other new hnew
  pending t ht := h.pending t (pending_of_pending_set hs ht fun b f hq => by
    have hold : ({ st with server := st.server.mintClientId.1 } : Station).Queues b f :=
      Station.queues_of_queues_connect hq
    exact hold)

/-- A frame comes over a connection that leads to no server. -/
theorem arrive (h : m.Gossips) (hm : m.Sane) (hs : m.station? id = some st) {link : LinkId}
    (hlink : ∀ line ∈ st.lines, line.link = link → line.peer = none)
    (hpath : ∀ msg, f.message = .ok msg → msg.path = []) : (m.arrive id link f).Gossips := by
  have hclient : ∀ r, st.server.routes.atLink link = some r → r.2.isClient = true :=
    fun r hr => (hm.wired id st hs).isClient_of_atLink hlink hr
  obtain ⟨-, hkept⟩ : Server.Sends none st.server _ ∧ (st.server.arrive m.hooks link f).2 = none :=
    Server.sends_arrive_client m.hooks hclient hpath
  have harrive : m.arrive id link f =
      m.set id { st with server := (st.server.arrive m.hooks link f).1 } := by
    simp only [Mesh.arrive, hs, hkept, Option.toList_none, List.append_nil]
  rw [harrive]
  exact h.set hm hs (Server.tells_arrive_client m.hooks hclient)

theorem effect (h : m.Gossips) (hm : m.Sane) (hmv : m.Triggers mv) : (m.effect mv).Gossips := by
  obtain ⟨ha, hkind⟩ := hmv
  rcases Move.gossips_cases hkind with ⟨a, b, rfl⟩ | ⟨place, rfl⟩ | ⟨id, rfl⟩ |
    ⟨id, label, options, rfl⟩ | ⟨id, label, options, f, rfl⟩
  · obtain ⟨sa, sb, hab⟩ := hm.exists_strangers ha
    exact h.join hab
  · cases ht : m.wire[place]? with
    | none => rwa [effect_deliver_none ht]
    | some t =>
      have hgone : m.Grown { m with wire := m.wire.eraseIdx place } :=
        hm.alike (alike_of_stations rfl)
      rw [effect_deliver ht]
      exact (h.erase place).deliver hgone.sane (h.pending t (.inl (List.mem_of_getElem? ht)))
  · cases hs : m.station? id with
    | none => rwa [announcement, effect_at_none hs]
    | some st =>
      rw [effect_announcement hs]
      exact h.set hm hs (st.server.tells_announce.mono fun _ _ hf => .inr (.inl hf))
  · cases hs : m.station? id with
    | none => rwa [effect_at_none hs]
    | some st =>
      obtain ⟨-, -, hlabel⟩ := ha st hs
      rw [effect_client hs hlabel]
      exact h.attach hs label options
  · cases hs : m.station? id with
    | none => rwa [effect_at_none hs]
    | some st =>
      obtain ⟨hlabel, hpath⟩ := ha st hs
      have hpath' : ∀ msg, f.message = .ok msg → msg.path = [] :=
        fun msg hmsg => hpath msg (by rw [hmsg]; rfl)
      let known := st.obtain label options.capacity options.held
      obtain ⟨hknown, hsane⟩ : (m.set id known.1).Gossips ∧ (m.set id known.1).Sane := by
        simp only [known, Station.obtain]
        split
        · rw [set_self hs]
          exact ⟨h, hm⟩
        · exact ⟨h.connect hs label _ _, (hm.connect hs label _ _).sane⟩
      rw [effect_at hs]
      exact hknown.arrive hsane station?_set_self ((hm.wired id st hs).peer_obtain hlabel) hpath'

theorem move (h : m.Gossips) (hm : m.Sane) (hmv : m.Triggers mv) : (m.move mv).Gossips :=
  (h.effect hm hmv).settle (hm.effect hmv.1)

end Gossips

theorem gossips_new (servers : List Id) (config : Config) :
    (Mesh.new servers config [] false).Gossips where
  hooks := rfl
  waiting := rfl
  timers id st hs := by rw [eq_of_station?_new hs]; rfl
  pending t ht := by
    rcases ht with hwire | ⟨st, hs, line, hl, -⟩
    · exact absurd hwire List.not_mem_nil
    · rw [eq_of_station?_new hs] at hl
      exact absurd hl List.not_mem_nil

end Mesh

end RelayMesh
