import RelayMesh.Proofs.Chat.Clients
import RelayMesh.Proofs.Mesh.Fixtures
import RelayMesh.Proofs.Mesh.Outsiders
import RelayMesh.Proofs.Wire.Normal

namespace RelayMesh

namespace Message

/-- Servers add themselves to the path of a line once. -/
theorem nodup_appendToPath {m : Message} (hk : m.content.kind = .chat) (hn : m.path.Nodup)
    (id : Id) : (m.appendToPath id).path.Nodup := by
  have hlimit : m.content.visitLimit = 1 := by
    cases hc : m.content with
    | chat _ _ => rfl
    | _ => rw [hc] at hk; cases hk
  unfold appendToPath
  split
  next hfew =>
    have hnot : id ∉ m.path := List.count_eq_zero.1 (Nat.lt_one_iff.1 (hlimit ▸ hfew))
    exact hn.append (List.nodup_singleton id) (List.disjoint_singleton.2 hnot)
  next => exact hn

end Message

namespace ChatLine

/-- The line has been written into the frame, under the limit, with a path of different servers. -/
structure Written (l : ChatLine) (limit : UInt32) (servers path : List Id) (f : Frame) : Prop where
  frame : ∃ sender, Frame.ofMessage MessageType.chat sender { l.message with path } limit = .ok f
  nodup : path.Nodup
  servers : path ⊆ servers

variable {l : ChatLine} {limit : UInt32} {servers path : List Id} {f g : Frame} {s : Server}

theorem Written.type (h : l.Written limit servers path f) : f.type = MessageType.chat := by
  obtain ⟨_, hf⟩ := h.frame
  exact Frame.type_of_ofMessage hf

theorem Written.message (h : l.Written limit servers path f) (hl : l.sequence < UInt64.size) :
    f.message = .ok { l.message with path } := by
  obtain ⟨_, hf⟩ := h.frame
  exact (Frame.carries_of_ofMessage hf).message_of_fits hl

theorem Written.length_le (h : l.Written limit servers path f) :
    (Wire.encodeMessage { l.message with path }).length ≤ limit.toNat := by
  obtain ⟨sender, hf⟩ := h.frame
  by_contra hlarge
  rw [Frame.ofMessage_of_lt _ _ (Nat.not_le.1 hlarge)] at hf
  cases hf

/-- What a server passes on of a line is the line again. -/
theorem Written.pass (h : l.Written limit servers path f) (hlimit : s.config.maxMessageSize = limit)
    (hid : s.identity ∈ servers)
    (hg : s.frame MessageType.chat { l.message with path } = .ok g ∨
      s.frame MessageType.chat (({ l.message with path } : Message).appendToPath s.identity) = .ok g) :
    ∃ path, l.Written limit servers path g := by
  subst hlimit
  rcases hg with hsame | hmore
  · exact ⟨path, ⟨_, hsame⟩, h.nodup, h.servers⟩
  · rw [Message.appendToPath_eq] at hmore
    exact ⟨_, ⟨_, hmore⟩, Message.nodup_appendToPath rfl h.nodup _,
      Server.path_appendToPath_subset h.servers hid⟩

theorem length_onward (l : ChatLine) (path : List Id) (id : Id) :
    let onward := ({ l.message with path } : Message).appendToPath id
    (Wire.encodeMessage onward).length =
      (Wire.encodeMessage l.message).length + Wire.pathCost onward.path := by
  intro onward
  have honward : { onward with path := [] } = l.message := by
    rw [show onward = _ from Message.appendToPath_eq _ id]
    rfl
  rw [Wire.length_encodeMessage, honward]

end ChatLine

/-- The frame that a client has queued for a line has the line in it. -/
theorem Client.written_of_sendChat {c c' : Client} {text : String} {number : Nat}
    {queue : SendQueue} {line : Frame} {servers : List Id}
    (h : c.sendChat text = .ok (c', number)) (hqueue : c'.queue = some queue)
    (hline : queue.frames.getLast? = some line) :
    ChatLine.Written ⟨c.identity, c.nextSequence, text⟩ c.limit servers [] line := by
  obtain ⟨frame, before, hframe, -, -, rfl, -⟩ := sendChat_eq_ok_iff.1 h
  obtain rfl := Option.some.inj hqueue
  obtain rfl : frame = line := by simpa using hline
  exact ⟨⟨_, hframe⟩, List.nodup_nil, List.nil_subset _⟩

namespace Server

variable {s : Server} {f : Frame} {msg : Message}

/-- The frames that a server writes when it relays a message: for its clients, and for neighbours. -/
def Relayed (s : Server) (type : MessageType) (msg : Message) (g : Frame) : Prop :=
  s.frame type msg = .ok g ∨ s.frame type (msg.appendToPath s.identity) = .ok g

theorem frame_of_fixture {s' : Server} (h : s'.fixture = s.fixture) : s'.frame = s.frame := by
  obtain ⟨hid, hconfig⟩ := Prod.mk.inj h
  funext type msg
  rw [frame, frame, hid, hconfig]

theorem relayed_of_fixture {s' : Server} (h : s'.fixture = s.fixture) : s'.Relayed = s.Relayed := by
  funext type msg g
  rw [Relayed, Relayed, frame_of_fixture h, show s'.identity = s.identity from (Prod.mk.inj h).1]

/-- A message that cannot be written goes to no neighbour. -/
theorem flood_of_error (except : Option Id) {type : MessageType} {why : Fault}
    (h : s.frame type (msg.appendToPath s.identity) = .error why) :
    s.flood except type msg = (s, 0) := by
  simp only [flood, h]

/-- When a frame for clients comes, all that the server writes for clients are copies of it. -/
theorem grows_arrive_chat (hooks : Interception) (link : LinkId)
    (ht : MessageType.isForClients f.type = true) (hread : f.message = .ok msg) :
    s.outbox.Grows (fun _ g => MessageType.isForClients g.type = true → s.Relayed f.type msg g)
      (s.arrive hooks link f).1.outbox := by
  have relayed (s' : Server) (h : s'.fixture = s.fixture) : s'.outbox.Grows
      (fun _ g => MessageType.isForClients g.type = true → s.Relayed f.type msg g)
        (s'.relayChat f.type msg).outbox := by
    rw [← relayed_of_fixture h]
    exact s'.grows_relayChat (fun _ _ _ _ hg _ => .inl hg) fun _ _ hg _ => .inr hg
  unfold arrive
  split
  · exact Outbox.grows_refl _ _
  unfold handleFrame
  split
  next id route msg' _ hmsg =>
    obtain rfl : msg = msg' := by rw [hread] at hmsg; exact Except.ok.inj hmsg
    split
    · split
      · exact relayed s rfl
      · exact Outbox.grows_refl _ _
    · -- announcements go out first, and they are of no type for clients
      have hlearned : s.outbox.Grows
          (fun _ g => MessageType.isForClients g.type = true → s.Relayed f.type msg g)
            (s.learnRoutes msg route.link).outbox := by
        refine s.grows_learnRoutes route.link fun _ _ _ g hg htype => ?_
        rw [Frame.type_of_ofMessage hg] at htype
        cases htype
      have hdispatch : (s.learnRoutes msg route.link).dispatch hooks f.type msg =
          ((s.learnRoutes msg route.link).relayChat f.type msg, none) := by
        rw [dispatch, if_pos ht]
      rw [hdispatch]
      exact hlearned.trans (relayed _ (s.fixture_learnRoutes msg route.link))
  next => exact Outbox.grows_refl _ _

/-- What a server appends to the queue of a connection when a frame comes. -/
def answers (s : Server) (hooks : Interception) (came : LinkId) (f : Frame) (link : LinkId) :
    List Frame :=
  ((s.arrive hooks came f).1.outbox.waiting link).drop (s.outbox.waiting link).length

theorem relayed_of_mem_answers {hooks : Interception} {came link : LinkId} {g : Frame}
    (ht : MessageType.isForClients f.type = true) (hread : f.message = .ok msg)
    (hg : g ∈ s.answers hooks came f link) (htype : MessageType.isForClients g.type = true) :
    s.Relayed f.type msg g := by
  obtain ⟨frames, hq, hnew⟩ := (s.grows_arrive_chat hooks came ht hread).queues link
  rw [answers, hq, List.drop_left] at hg
  exact hnew g hg htype

end Server

namespace Mesh

/-- All servers have this limit. -/
def Uniform (m : Mesh) (limit : UInt32) : Prop :=
  ∀ id own config, m.fixtures id = some (own, config) → own = id ∧ config.maxMessageSize = limit

/-- Frames with a line come to servers: the one that its client has written, and what a server has
queued about it for clients and servers when such a frame has come to it. Anything else may happen in
between. -/
inductive Conveys (m₀ : Mesh) (line : Frame) : Mesh → Move → Prop
  | said {m : Mesh} {mv : Move} {id : Id} {link : LinkId} (hl : m₀.Later m)
      (ha : m.arrival? mv = some (id, link, line)) : m₀.Conveys line m mv
  | copied {m m' : Mesh} {mv mv' : Move} {id id' : Id} {came link link' : LinkId} {f g : Frame}
      {st : Station} (h : m₀.Conveys line m mv) (ha : m.arrival? mv = some (id, came, f))
      (hs : m.station? id = some st) (hg : g ∈ st.server.answers m.hooks came f link)
      (htype : MessageType.isForClients g.type = true) (hl : (m.after (.move mv)).Later m')
      (ha' : m'.arrival? mv' = some (id', link', g)) : m₀.Conveys line m' mv'

variable {m m₀ : Mesh} {mv : Move} {id : Id} {link : LinkId} {f line : Frame} {st : Station}
  {l : ChatLine} {limit : UInt32}

theorem mem_keys_of_fixtures {fixture : Id × Config} (h : m.fixtures id = some fixture) :
    id ∈ m.stations.keys := by
  obtain ⟨st, hs, -⟩ := Option.map_eq_some_iff.1 h
  exact mem_keys_of_station? hs

/-- The servers are the same whenever a frame with the line comes. -/
theorem Conveys.fixtures (h : m₀.Conveys line m mv) : m.fixtures = m₀.fixtures := by
  induction h with
  | said hl _ => exact hl.fixtures
  | copied _ _ _ _ _ hl _ ih => rw [hl.fixtures, fixtures_after, ih]

/-- Every frame that comes with a line has the line in it, under the same limit. -/
theorem Conveys.written (h : m₀.Conveys line m mv) (hm : m₀.Uniform limit)
    (hline : l.Written limit m₀.stations.keys [] line) (hl : l.sequence < UInt64.size)
    (ha : m.arrival? mv = some (id, link, f)) : ∃ path, l.Written limit m₀.stations.keys path f := by
  -- by induction on how often the line was relayed: whoever wrote the frame is a server of the overlay
  induction h generalizing id link f with
  | said _ hsaid =>
    obtain rfl : line = f := congrArg (·.2.2) (Option.some.inj (hsaid.symm.trans ha))
    exact ⟨[], hline⟩
  | @copied m m' _ _ sid _ _ _ _ f₀ g st h hfirst hs hg htype _ hcame ih =>
    obtain rfl : g = f := congrArg (·.2.2) (Option.some.inj (hcame.symm.trans ha))
    obtain ⟨path, hwritten⟩ := ih hfirst
    have hfix : m₀.fixtures sid = some st.server.fixture := by
      rw [← h.fixtures, Mesh.fixtures, hs, Option.map_some]
    obtain ⟨hid, hlimit⟩ := hm sid _ _ hfix
    have hclients : MessageType.isForClients f₀.type = true := by rw [hwritten.type]; rfl
    have hcopies := Server.relayed_of_mem_answers hclients (hwritten.message hl) hg htype
    rw [hwritten.type] at hcopies
    exact hwritten.pass hlimit (hid ▸ mem_keys_of_fixtures hfix) hcopies

theorem uniform_ofStartups {startups : List Startup} (hooks : Interception)
    (h : ∀ s ∈ startups, s.config.maxMessageSize = limit) :
    (ofStartups startups hooks).Uniform limit := by
  intro id own config hfix
  obtain ⟨st, hs, he⟩ := Option.map_eq_some_iff.1 hfix
  obtain ⟨s, hmem, hstation⟩ := List.mem_map.1 (SortedMap.mem_of_get?_ofList hs)
  cases hstation
  cases he
  exact ⟨rfl, h s hmem⟩

/-- In an overlay of servers with one limit, whatever else happens there, a client sends a line under
this limit. At every server that the line comes to, in any state `s` of the server, it is read as it was
sent, on a path of different servers, and it is not too large for the clients of the server. For
neighbours it is too large exactly if the line and the path with this server take more than the limit,
and then none of them gets it. If there is room for all servers on the path, this is never so. -/
theorem relayed_within_limit {c c' : Client} {text : String} {number : Nat} {queue : SendQueue}
    {s : Server} (hsay : c.sendChat text = .ok (c', number)) (hcount : c.nextSequence < UInt64.size)
    (hqueue : c'.queue = some queue) (hline : queue.frames.getLast? = some line)
    (hm : m₀.Uniform c.limit) (h : m₀.Conveys line m mv) (ha : m.arrival? mv = some (id, link, f))
    (hs : m.fixtures id = some s.fixture) :
    let sent := Message.new c.identity (.chat c.nextSequence text)
    let size := (Wire.encodeMessage sent).length
    ∃ path, path.Nodup ∧ path ⊆ m₀.stations.keys ∧
      let msg := { sent with path }
      let onward := msg.appendToPath id
      f.type = MessageType.chat ∧ f.message = .ok msg ∧ (∃ g, s.frame f.type msg = .ok g) ∧
      (size + Wire.pathCost onward.path ≤ c.limit.toNat → ∃ g, s.frame f.type onward = .ok g) ∧
      (c.limit.toNat < size + Wire.pathCost onward.path →
        s.frame f.type onward =
          .error (.messageTooLarge (min (size + Wire.pathCost onward.path) maxWord)) ∧
        ∀ except, s.flood except f.type msg = (s, 0)) ∧
      (size + Wire.pathCost m₀.stations.keys ≤ c.limit.toNat →
        ∃ g, s.frame f.type onward = .ok g) := by
  intro sent size
  let l : ChatLine := ⟨c.identity, c.nextSequence, text⟩
  have hsaid : l.Written c.limit m₀.stations.keys [] line :=
    Client.written_of_sendChat hsay hqueue hline
  obtain ⟨path, hwritten⟩ := h.written hm hsaid hcount ha
  have hfix : m₀.fixtures id = some s.fixture := h.fixtures ▸ hs
  obtain ⟨hid, hlimit⟩ := hm id _ _ hfix
  have hlimit : s.config.maxMessageSize = c.limit := hlimit
  obtain rfl : s.identity = id := hid
  refine ⟨path, hwritten.nodup, hwritten.servers, ?_⟩
  intro msg onward
  have hlength : (Wire.encodeMessage onward).length = size + Wire.pathCost onward.path :=
    l.length_onward path s.identity
  have hfits : size + Wire.pathCost onward.path ≤ c.limit.toNat →
      ∃ g, s.frame f.type onward = .ok g := by
    intro hle
    rw [Server.frame, hlimit]
    exact ⟨_, Frame.ofMessage_of_le _ _ (hlength ▸ hle)⟩
  have hroom : Wire.pathCost onward.path ≤ Wire.pathCost m₀.stations.keys :=
    Wire.pathCost_le (Message.nodup_appendToPath rfl hwritten.nodup s.identity)
      (Server.path_appendToPath_subset hwritten.servers (mem_keys_of_fixtures hfix))
  refine ⟨hwritten.type, hwritten.message hcount, ?_, hfits, fun hlarge => ?_,
    fun hall => hfits (by omega)⟩
  · rw [Server.frame, hlimit]
    exact ⟨_, Frame.ofMessage_of_le _ _ hwritten.length_le⟩
  · have hrefused : s.frame f.type onward =
        .error (.messageTooLarge (min (size + Wire.pathCost onward.path) maxWord)) := by
      rw [Server.frame, hlimit, Frame.ofMessage_of_lt _ _ (hlength ▸ hlarge), hlength]
    exact ⟨hrefused, fun except => Server.flood_of_error except hrefused⟩

/-- Three servers that take twelve bytes. -/
def narrow : Mesh :=
  ofStartups ([1, 2, 3].map fun identity => { identity, config := { maxMessageSize := 12 } }) {}

/-- They stand in a line, and each has a client. -/
def crowd : List Move :=
  [.step (.at 2 (.start [1])), .step (.at 3 (.start [2])), .step (.at 1 (.client none {})),
    .step (.at 2 (.client none {})), .step (.at 3 (.client none {}))]

/-- The client of server 1, which takes twelve bytes as well, and then it has said its first line. -/
def speaker : Client := { identity := 100, server := 1, limit := 12, queue := some { capacity := 1 } }

def spoken : Client :=
  { speaker with queue := some { capacity := 1, frames := [firstLine 100 []] }, nextSequence := 1 }

/-- The line has come to server 1. -/
def greeted : Mesh :=
  (narrow.play crowd).after (.move (.step (.at 1 (.frame "100" {} (firstLine 100 [])))))

/-- What comes to server 2 then. -/
def forwarded : Message := { Message.new 100 (.chat 0 "hello") with path := [1] }

def forwardedFrame : Frame := ⟨MessageType.chat, 1, Wire.encodeMessage forwarded⟩

/-- The line takes eleven bytes. -/
theorem sendChat_speaker : speaker.sendChat "hello" = .ok (spoken, 0) := by decide +kernel

theorem uniform_narrow : narrow.Uniform 12 := uniform_ofStartups {} (by decide)

theorem message_forwardedFrame : forwardedFrame.message = .ok forwarded := by decide +kernel

theorem conveys_greeted : narrow.Conveys (firstLine 100 []) greeted (.deliver 2) ∧
    greeted.arrival? (.deliver 2) = some (2, 0, forwardedFrame) := by
  have hsaid : (narrow.play crowd).arrival? (.step (.at 1 (.frame "100" {} (firstLine 100 [])))) =
      some (1, 1, firstLine 100 []) := by decide +kernel
  have hnext : greeted.arrival? (.deliver 2) = some (2, 0, forwardedFrame) := by decide +kernel
  obtain ⟨st, hs, hcopy⟩ : ∃ st ∈ (narrow.play crowd).station? 1,
      forwardedFrame ∈ st.server.answers (narrow.play crowd).hooks 1 (firstLine 100 []) 0 := by
    decide +kernel
  exact ⟨.copied (.said (Later.now.play crowd) hsaid) hsaid hs hcopy (by decide) .now hnext, hnext⟩

/-- Server 2 can give the line to its client, and it cannot add itself to the path in twelve bytes. -/
theorem relayed_within_limit_narrow : ∃ s, greeted.server? 2 = some s ∧
    (∃ g, s.frame MessageType.chat forwarded = .ok g) ∧
      s.frame MessageType.chat (forwarded.appendToPath 2) = .error (.messageTooLarge 13) ∧
        s.flood (some 100) MessageType.chat forwarded = (s, 0) := by
  obtain ⟨st, hs⟩ : ∃ st, greeted.station? 2 = some st :=
    Option.isSome_iff_exists.1 (by decide +kernel)
  have hfix : greeted.fixtures 2 = some st.server.fixture := by
    rw [fixtures, hs, Option.map_some]
  obtain ⟨path, -, -, -, hread, hclients, -, hlarge, -⟩ := relayed_within_limit sendChat_speaker
    (by decide) rfl rfl uniform_narrow conveys_greeted.1 conveys_greeted.2 hfix
  rw [message_forwardedFrame] at hread
  obtain rfl : [1] = path := congrArg (·.path) (Except.ok.inj hread)
  obtain ⟨hrefused, hflood⟩ := hlarge (by decide +kernel)
  have hsize : min ((Wire.encodeMessage (Message.new 100 (.chat 0 "hello"))).length +
      Wire.pathCost (forwarded.appendToPath 2).path) maxWord = 13 := by decide +kernel
  have hrefused : st.server.frame MessageType.chat (forwarded.appendToPath 2) =
    .error (.messageTooLarge (min ((Wire.encodeMessage (Message.new 100 (.chat 0 "hello"))).length +
      Wire.pathCost (forwarded.appendToPath 2).path) maxWord)) := hrefused
  rw [hsize] at hrefused
  exact ⟨st.server, by rw [server?, hs, Option.map_some], hclients, hrefused, hflood (some 100)⟩

/-- The client of server 2 gets the line, and that of server 3 never does, because at server 2 it is too
large to go on: not every line that a client may send is short enough for all servers. -/
theorem accepted_line_stops :
    let rest := greeted.after (.move (.deliver 2))
    ((rest.server? 2).map (·.routes.isNewChat 100 0) = some false ∧
      (rest.server? 3).map (·.routes.isNewChat 100 0) = some true ∧
      ∀ t ∈ rest.wire, MessageType.isForClients t.frame.type = false) ∧
    ¬ ∀ (c c' : Client) (text : String) (number : Nat) (queue : SendQueue) (line f : Frame)
      (m₀ m : Mesh) (mv : Move) (id : Id) (link : LinkId) (s : Server) (msg : Message),
      c.sendChat text = .ok (c', number) → c'.queue = some queue →
      queue.frames.getLast? = some line → m₀.Uniform c.limit → m₀.Conveys line m mv →
      m.arrival? mv = some (id, link, f) → m.server? id = some s → f.message = .ok msg →
        ∃ g, s.frame f.type (msg.appendToPath id) = .ok g := by
  intro rest
  refine ⟨by decide +kernel, fun hclaim => ?_⟩
  obtain ⟨s, hs, hrefused⟩ : ∃ s ∈ greeted.server? 2,
      s.frame MessageType.chat (forwarded.appendToPath 2) = .error (.messageTooLarge 13) := by
    decide +kernel
  obtain ⟨g, hg⟩ := hclaim speaker spoken "hello" 0 _ _ _ _ _ _ _ _ s _ sendChat_speaker rfl rfl
    uniform_narrow conveys_greeted.1 conveys_greeted.2 hs message_forwardedFrame
  have hok : s.frame MessageType.chat (forwarded.appendToPath 2) = .ok g := hg
  rw [hrefused] at hok
  cases hok

end Mesh

end RelayMesh
