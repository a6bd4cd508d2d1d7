import RelayMesh.Proofs.Mesh.Sane
import RelayMesh.Proofs.Mesh.Space
import RelayMesh.Proofs.Server.Steps

namespace RelayMesh

namespace Frame

/-- The chat in a frame. -/
def chat? (f : Frame) : Option Message := f.message.toOption.filter (·.content.kind = .chat)

/-- The type of the frame tells whether there is chat in it. -/
def Honest (f : Frame) : Prop := MessageType.isForClients f.type = f.chat?.isSome

/-- The frame is no chat, by its content as by its type. -/
structure Plain (f : Frame) : Prop where
  type : MessageType.isForClients f.type = false
  chat : f.chat? = none

theorem Honest.isForClients {f : Frame} {msg : Message} (h : f.Honest) (hchat : f.chat? = some msg) :
    MessageType.isForClients f.type = true := by
  rw [h, hchat]
  rfl

theorem Plain.honest {f : Frame} (h : f.Plain) : f.Honest := by
  rw [Honest, h.type, h.chat]
  rfl

theorem chat?_eq_some {f : Frame} {msg : Message} :
    f.chat? = some msg ↔ f.message = .ok msg ∧ msg.content.kind = .chat := by
  unfold chat?
  cases f.message <;> simp [Except.toOption, Option.filter_eq_some_iff]

theorem plain_of_ofMessage {f : Frame} {type : MessageType} {sender : Id} {msg : Message}
    {limit : UInt32} (h : ofMessage type sender msg limit = .ok f)
    (ht : MessageType.isForClients type = false) (hk : msg.content.kind ≠ .chat) : f.Plain := by
  refine ⟨by rw [type_of_ofMessage h, ht], ?_⟩
  cases hchat : f.chat? with
  | none => rfl
  | some read =>
    obtain ⟨hread, hkind⟩ := chat?_eq_some.1 hchat
    have hsame := ((carries_of_ofMessage h).header hread).2.2.2
    exact absurd (hsame.symm.trans hkind) hk

end Frame

namespace Outbox

variable {o o' : Outbox} {f : Frame} {link : LinkId} {links : List LinkId}

/-- A frame for several connections waits on each of them as often as it is listed. -/
theorem waiting_pushEach (hs : (o.pushEach f links).1.HasSpace link) :
    (o.pushEach f links).1.waiting link =
      o.waiting link ++ List.replicate (links.count link) f := by
  induction links generalizing o with
  | nil => simp [pushEach]
  | cons first links ih =>
    rw [pushEach] at hs ⊢
    cases hpush : o.push first f with
    | ok o' =>
      simp only [hpush] at hs ⊢
      rw [ih hs, waiting_of_push hpush, List.count_cons]
      by_cases hl : link = first
      · subst hl
        simp [List.replicate_succ]
      · simp [hl, Ne.symm hl]
    | error why =>
      simp only [hpush] at hs ⊢
      have hne : first ≠ link := by
        rintro rfl
        have hgrows : Grows (fun _ _ => True) o (o.pushEach f links).1 :=
          grows_pushEach o fun _ _ => trivial
        obtain ⟨o', ho'⟩ := exists_push (hgrows.hasSpace hs) f
        rw [hpush] at ho'
        cases ho'
      rw [ih hs, List.count_cons_of_ne hne]

/-- Somebody gets the frame if one of the connections has space for it. -/
theorem pushEach_pos (hl : link ∈ links) (hs : (o.pushEach f links).1.HasSpace link) :
    0 < (o.pushEach f links).2 := by
  induction links generalizing o with
  | nil => exact absurd hl List.not_mem_nil
  | cons first links ih =>
    rw [pushEach] at hs ⊢
    cases hpush : o.push first f with
    | ok o' =>
      exact Nat.succ_pos _
    | error why =>
      simp only [hpush] at hs ⊢
      rcases List.mem_cons.1 hl with rfl | hl
      · have hgrows : Grows (fun _ _ => True) o (o.pushEach f links).1 :=
          grows_pushEach o fun _ _ => trivial
        obtain ⟨o', ho'⟩ := exists_push (hgrows.hasSpace hs) f
        rw [hpush] at ho'
        cases ho'
      · exact ih hl hs

end Outbox

namespace Server

/-- Whatever the server has done, it has nothing to do with chat. -/
structure Hush (s s' : Server) : Prop where
  identity : s'.identity = s.identity
  config : s'.config = s.config
  down : s'.down = s.down
  lastChat : s'.routes.lastChat = s.routes.lastChat
  clients : ∀ id link, s'.routes.get? id = some ⟨.client, link⟩ ↔
    s.routes.get? id = some ⟨.client, link⟩
  outbox : s.outbox.Grows (fun _ f => f.Plain) s'.outbox

variable {s s' s'' : Server} {msg : Message} {type : MessageType} {f g : Frame}

theorem hush_refl (s : Server) : s.Hush s :=
  ⟨rfl, rfl, rfl, rfl, fun _ _ => Iff.rfl, Outbox.grows_refl _ _⟩

theorem Hush.trans (h : s.Hush s') (h' : s'.Hush s'') : s.Hush s'' :=
  ⟨h'.identity.trans h.identity, h'.config.trans h.config, h'.down.trans h.down,
    h'.lastChat.trans h.lastChat, fun id link => (h'.clients id link).trans (h.clients id link),
    h.outbox.trans h'.outbox⟩

theorem Acts.hush (h : Acts Outgoing.Plain s s') : s.Hush s' := by
  refine ⟨h.kept.identity, h.kept.config, h.kept.down, by rw [h.kept.routes],
    fun _ _ => by rw [h.kept.routes], h.grows fun o ho _ _ hf => ?_⟩
  refine Frame.plain_of_ofMessage hf ho.1 ?_
  rw [Message.content_appendToPath]
  exact ho.2

theorem hush_carryOut (s : Server) {o : Outgoing} (ho : o.Plain) : s.Hush (s.carryOut o) :=
  (Acts.send .refl ho).hush

theorem hush_expire (s : Server) : s.Hush s.expire := (acts_expire (fun _ h => h.plain) s).hush

theorem hush_advance (s : Server) (ms : Nat) : s.Hush (s.advance ms) :=
  (acts_advance (fun _ h => h.plain) s ms).hush

theorem hush_obey (s : Server) {c : Command} (hc : c.isQuiet = true) : s.Hush (s.obey c).1 :=
  (acts_obey (fun _ h => h.plain) s hc).hush

theorem hush_learn (s : Server) (path : List Id) (link : LinkId) :
    s.Hush { s with routes := (s.routes.learn path link).1 } := by
  refine ⟨rfl, rfl, rfl, Routes.lastChat_learn _ _ _, fun id edge => ?_, Outbox.grows_refl _ _⟩
  rcases Routes.get?_learn s.routes path link id with hsame | ⟨-, hno, next, i, -, -, -, hnew⟩
  · exact iff_of_eq (congrArg (· = _) hsame)
  · refine ⟨fun h => ?_, fun h => absurd ⟨edge, h⟩ hno⟩
    have h : (s.routes.learn path link).1.get? id = _ := h
    rw [hnew] at h
    cases h

theorem hush_learnRoutes (s : Server) (msg : Message) (link : LinkId) :
    s.Hush (s.learnRoutes msg link) :=
  (hush_learn s msg.path link).trans (acts_announceEach (fun _ h => h.plain) _ _).hush

/-- Whatever a message that is no chat leads to is no chat. -/
theorem hush_dispatch (hooks : Interception) (s : Server)
    (ht : MessageType.isForClients type = false) (hk : msg.content.kind ≠ .chat) :
    s.Hush (s.dispatch hooks type msg).1 := by
  unfold dispatch
  rw [ht]
  simp only [Bool.false_eq_true, if_false]
  split
  · exact hush_carryOut s (o := .toServer _ type msg) ⟨ht, hk⟩
  · split
    · exact hush_refl s
    · exact (acts_perform (fun _ h => h.plain) (fun _ _ h => ⟨h, hk⟩) s type).hush

section Relay

/-- The connections to the neighbours that get a copy of a relayed message. -/
def onward (s : Server) (msg : Message) : List LinkId :=
  eligible (some msg.sender) (msg.appendToPath s.identity) s.routes.neighbours

/-- Whether the line in a message is new to the clients of the server. -/
def isNews (s : Server) (msg : Message) : Bool :=
  msg.sequence?.any (s.routes.isNewChat msg.sender)

/-- The connections to the clients that get a relayed message. -/
def listeners (s : Server) (msg : Message) : List LinkId :=
  if s.isNews msg then eligible (some msg.sender) msg s.routes.clients else []

/-- Puts a message into the queues of several connections, if it can be written. -/
def spread (s : Server) (o : Outbox) (type : MessageType) (msg : Message) (links : List LinkId) :
    Outbox × Nat :=
  match s.frame type msg with
  | .ok f => o.pushEach f links
  | .error _ => (o, 0)

/-- What one of the connections gets. -/
def copies (s : Server) (type : MessageType) (msg : Message) (links : List LinkId)
    (link : LinkId) : List Frame :=
  match s.frame type msg with
  | .ok f => List.replicate (links.count link) f
  | .error _ => []

variable {o : Outbox} {links : List LinkId} {k : Nat} {link : LinkId}

theorem grows_spread (s : Server) (o : Outbox) (type : MessageType) (msg : Message)
    (links : List LinkId) : o.Grows (fun _ _ => True) (s.spread o type msg links).1 := by
  unfold spread
  split
  · exact Outbox.grows_pushEach _ fun _ _ => trivial
  · exact Outbox.grows_refl _ _

theorem waiting_spread (hs : (s.spread o type msg links).1.HasSpace link) :
    (s.spread o type msg links).1.waiting link =
      o.waiting link ++ s.copies type msg links link := by
  unfold spread copies at *
  cases hf : s.frame type msg with
  | ok f =>
    simp only [hf] at hs ⊢
    exact Outbox.waiting_pushEach hs
  | error why => simp

theorem spread_pos (hok : (s.frame type msg).isOk = true) (hl : link ∈ links)
    (hs : (s.spread o type msg links).1.HasSpace link) : 0 < (s.spread o type msg links).2 := by
  unfold spread at *
  cases hf : s.frame type msg with
  | ok f =>
    simp only [hf] at hs ⊢
    exact Outbox.pushEach_pos hl hs
  | error why =>
    rw [hf] at hok
    cases hok

theorem spread_nil (s : Server) (o : Outbox) (type : MessageType) (msg : Message) :
    s.spread o type msg [] = (o, 0) := by
  unfold spread
  split <;> rfl

theorem flood_eq (s : Server) (type : MessageType) (msg : Message) :
    (s.flood (some msg.sender) type msg).1 = { s with
      outbox := (s.spread s.outbox type (msg.appendToPath s.identity) (s.onward msg)).1 } := by
  unfold flood spread
  cases hf : s.frame type (msg.appendToPath s.identity) <;> simp only [hf, onward]

variable (hseq : msg.sequence? = some k)

include hseq

theorem floodClients_eq (s : Server) (type : MessageType) :
    (s.floodClients (some msg.sender) type msg).1 =
      let given := s.spread s.outbox type msg (s.listeners msg)
      { s with
        outbox := given.1
        routes := if 0 < given.2 then s.routes.recordChat msg.sender k else s.routes } := by
  by_cases hnew : s.routes.isNewChat msg.sender k = true
  · have hlisteners : s.listeners msg = eligible (some msg.sender) msg s.routes.clients := by
      simp [listeners, isNews, hseq, hnew]
    simp only [floodClients, hseq, hnew, if_true, hlisteners]
    unfold spread
    cases hf : s.frame type msg with
    | error why => simp
    | ok f =>
      simp only
      split <;> rfl
  · have hlisteners : s.listeners msg = [] := by
      simp [listeners, isNews, hseq, hnew]
    simp only [floodClients, hseq, hnew, hlisteners, spread_nil]
    simp

/-- A server that relays a line spreads it to neighbours, and then to clients, and records it if one of
them gets it. -/
theorem relayChat_eq (s : Server) (type : MessageType) : s.relayChat type msg =
    let onward := s.spread s.outbox type (msg.appendToPath s.identity) (s.onward msg)
    let given := s.spread onward.1 type msg (s.listeners msg)
    { s with
      outbox := given.1
      routes := if 0 < given.2 then s.routes.recordChat msg.sender k else s.routes } := by
  rw [relayChat, flood_eq]
  exact floodClients_eq hseq _ type

/-- What waits on a connection, once a line is relayed and the queue has space still. -/
theorem waiting_relayChat (hs : (s.relayChat type msg).outbox.HasSpace link) :
    (s.relayChat type msg).outbox.waiting link = s.outbox.waiting link ++
      s.copies type (msg.appendToPath s.identity) (s.onward msg) link ++
        s.copies type msg (s.listeners msg) link := by
  rw [relayChat_eq hseq] at hs ⊢
  dsimp only at hs ⊢
  rw [waiting_spread hs, waiting_spread ((s.grows_spread _ _ _ _).hasSpace hs)]

theorem lastChat_relayChat_eq (type : MessageType) :
    (s.relayChat type msg).routes.lastChat = s.routes.lastChat ∨
      s.isNews msg = true ∧
        (s.relayChat type msg).routes.lastChat = (s.routes.recordChat msg.sender k).lastChat := by
  rw [relayChat_eq hseq]
  dsimp only
  split
  next hpos =>
    refine .inr ⟨?_, rfl⟩
    by_contra hnew
    rw [listeners, if_neg hnew, spread_nil] at hpos
    exact Nat.lt_irrefl _ hpos
  next => exact .inl rfl

/-- A line that somebody gets is recorded. -/
theorem lastChat_relayChat (hok : (s.frame type msg).isOk = true) (hl : link ∈ s.listeners msg)
    (hs : (s.relayChat type msg).outbox.HasSpace link) :
    (s.relayChat type msg).routes.lastChat = (s.routes.recordChat msg.sender k).lastChat := by
  rw [relayChat_eq hseq] at hs ⊢
  dsimp only at hs ⊢
  rw [if_pos (spread_pos hok hl hs)]

end Relay

end Server

namespace Station

/-- No two clients share a connection. -/
def Seated (st : Station) : Prop :=
  ∀ c c' link, st.server.routes.get? c = some ⟨.client, link⟩ →
    st.server.routes.get? c' = some ⟨.client, link⟩ → c = c'

variable {st : Station} {id b c : Id} {line : Line} {link : LinkId} {msg : Message}

/-- A neighbour at the other end of a connection gets a copy, unless it is on the path. -/
theorem Wired.count_onward_pos (h : st.Wired id) (hl : line ∈ st.lines) (hpeer : line.peer = some b)
    (hsender : b ≠ msg.sender) (hb : b ∉ (msg.appendToPath st.server.identity).path) :
    0 < (st.server.onward msg).count line.link := by
  rw [List.count_pos_iff]
  have hmem : (b, (⟨.server 1 b, line.link⟩ : Route)) ∈ st.server.routes.neighbours :=
    List.mem_filter.2 ⟨st.server.routes.entries.mem_toList_iff.2 (h.direct line hl b hpeer), rfl⟩
  refine List.mem_map.2 ⟨_, List.mem_filter.2 ⟨hmem, ?_⟩, rfl⟩
  simp [hsender, Message.hasVisited, hb]

theorem link_of_mem_eligible {except : Option Id} {targets : List (Id × Route)}
    (hl : link ∈ Server.eligible except msg targets) : ∃ b ∈ targets, b.2.link = link := by
  obtain ⟨b, hb, rfl⟩ := List.mem_map.1 hl
  exact ⟨b, (List.mem_filter.1 hb).1, rfl⟩

/-- Copies for neighbours go over connections to servers only. -/
theorem Wired.count_onward_client (h : st.Wired id)
    (hc : st.server.routes.get? c = some ⟨.client, link⟩) :
    (st.server.onward msg).count link = 0 := by
  refine List.count_eq_zero_of_not_mem fun hmem => ?_
  obtain ⟨⟨d, reach, edge⟩, hd, rfl⟩ := link_of_mem_eligible hmem
  obtain ⟨hin, hnear⟩ := List.mem_filter.1 hd
  cases reach with
  | client => cases hnear
  | server hops next =>
    obtain ⟨-, line, hl, hpeer, hover⟩ :=
      h.remote d hops next edge (st.server.routes.entries.mem_toList_iff.1 hin)
    exact hpeer ((h.clients c edge hc).2 line hl hover)

/-- What is for clients goes over connections to no server. -/
theorem Wired.count_listeners_server (h : st.Wired id) (hl : line ∈ st.lines)
    (hpeer : line.peer ≠ none) : (st.server.listeners msg).count line.link = 0 := by
  refine List.count_eq_zero_of_not_mem fun hmem => ?_
  unfold Server.listeners at hmem
  split at hmem
  case isFalse => exact absurd hmem List.not_mem_nil
  obtain ⟨d, hd, hover⟩ := link_of_mem_eligible hmem
  have hclient := Server.isClient_of_mem_clients hd
  exact hpeer ((h.clients d.1 d.2.link hclient).2 line hl hover.symm)

theorem mem_listeners (hseat : st.Seated) (hc : st.server.routes.get? c = some ⟨.client, link⟩) :
    link ∈ st.server.listeners msg ↔
      st.server.isNews msg = true ∧ c ≠ msg.sender ∧ c ∉ msg.path := by
  have hentry : (c, (⟨.client, link⟩ : Route)) ∈ st.server.routes.clients :=
    List.mem_filter.2 ⟨st.server.routes.entries.mem_toList_iff.2 hc, rfl⟩
  unfold Server.listeners
  split
  case isFalse hold => simp [hold]
  next hnew =>
    simp only [hnew, true_and]
    constructor
    · intro hmem
      obtain ⟨d, hd, hover⟩ := List.mem_map.1 hmem
      obtain ⟨hd, hfree⟩ := List.mem_filter.1 hd
      have hclient := Server.isClient_of_mem_clients hd
      rw [hover] at hclient
      rw [hseat c d.1 link hc hclient]
      simpa [Message.hasVisited] using hfree
    · rintro ⟨hsender, hpath⟩
      refine List.mem_map.2 ⟨_, List.mem_filter.2 ⟨hentry, ?_⟩, rfl⟩
      simp [hsender, Message.hasVisited, hpath]

/-- Nobody is listed twice. -/
theorem nodup_listeners (hseat : st.Seated) : (st.server.listeners msg).Nodup := by
  have hentries : st.server.routes.entries.toList.Nodup :=
    st.server.routes.entries.ascending.imp fun hlt => by
      rintro rfl
      exact Std.lt_irrefl hlt
  unfold Server.listeners
  split
  case isFalse => exact List.nodup_nil
  refine List.Nodup.map_on ?_ ((hentries.filter _).filter _)
  intro d hd e he hover
  have hd := (List.mem_filter.1 hd).1
  have he := (List.mem_filter.1 he).1
  have hdc := Server.isClient_of_mem_clients hd
  have hec := Server.isClient_of_mem_clients he
  have hid : d.1 = e.1 := hseat d.1 e.1 _ hdc (hover ▸ hec)
  have hroute : st.server.routes.entries.get? d.1 = some d.2 :=
    st.server.routes.entries.mem_toList_iff.1 (List.mem_filter.1 hd).1
  have hroute' : st.server.routes.entries.get? e.1 = some e.2 :=
    st.server.routes.entries.mem_toList_iff.1 (List.mem_filter.1 he).1
  exact Prod.ext hid (Option.some.inj (hroute.symm.trans (hid ▸ hroute')))

/-- Each client gets a new line once, unless it is the sender. -/
theorem count_listeners (hseat : st.Seated) (hc : st.server.routes.get? c = some ⟨.client, link⟩) :
    (st.server.listeners msg).count link =
      if st.server.isNews msg = true ∧ c ≠ msg.sender ∧ c ∉ msg.path then 1 else 0 := by
  split
  next hfree =>
    exact List.count_eq_one_of_mem (nodup_listeners hseat) ((mem_listeners hseat hc).2 hfree)
  next hbusy => exact List.count_eq_zero_of_not_mem fun hmem => hbusy ((mem_listeners hseat hc).1 hmem)

end Station

end RelayMesh
