import RelayMesh.Proofs.Chat.Channels

namespace RelayMesh

namespace Mesh

/-- Every connection that a route leads over has space for another frame. -/
def Spacious (m : Mesh) : Prop :=
  ∀ b ∈ m.stations.toList, ∀ r ∈ b.2.server.routes.entries.toList,
    b.2.server.outbox.HasSpace r.2.link

/-- The copies that the server `v` makes of the chat in the frame can be written: the one for
neighbours, if it goes to any, and the one for clients. -/
def Relayable (m : Mesh) (v : Id) (f : Frame) : Prop :=
  ∀ st ∈ m.station? v, ∀ msg ∈ f.chat?,
    (st.server.onward msg ≠ [] → (st.server.frame f.type (msg.appendToPath v)).isOk = true) ∧
      (st.server.listeners msg ≠ [] → (st.server.frame f.type msg).isOk = true)

instance (m : Mesh) : Decidable m.Spacious :=
  inferInstanceAs (Decidable (∀ b ∈ m.stations.toList, ∀ r ∈ b.2.server.routes.entries.toList,
    b.2.server.outbox.HasSpace r.2.link))

instance (m : Mesh) (v : Id) (f : Frame) : Decidable (m.Relayable v f) :=
  inferInstanceAs (Decidable (∀ st ∈ m.station? v, ∀ msg ∈ f.chat?,
    (st.server.onward msg ≠ [] → (st.server.frame f.type (msg.appendToPath v)).isOk = true) ∧
      (st.server.listeners msg ≠ [] → (st.server.frame f.type msg).isOk = true)))

/-- Line `k` of `b` is newer than what the server `v` has given to its clients. -/
def isNews (m : Mesh) (v b : Id) (k : Nat) : Bool := (m.last v b).all (· < k)

/-- The server `v` has relayed line `k`, which has come to it in `msg`. -/
structure Relays (m m' : Mesh) (v : Id) (msg : Message) (k : Nat) : Prop where
  still : m.Still m'
  seat : ∀ u c link, m'.Seat u c link ↔ m.Seat u c link
  honest : m.Honest → m'.Honest
  /-- The message may have left a connection to `v`. Copies go to all neighbours that it has not
  visited, and to nobody else. -/
  copies : ∀ u w, ∃ gone kept n, chats (m.channel u w) = gone ++ kept ∧
    chats (m'.channel u w) = kept ++ List.replicate n (msg.appendToPath v) ∧
    (∀ c ∈ gone, w = v ∧ c = msg) ∧ (n ≠ 0 → u = v ∧ m.graph.Adj u w) ∧
    (u = v → m.graph.Adj u w → w ≠ msg.sender → w ∉ (msg.appendToPath v).path → 0 < n)
  letters : ∀ u c link, m.Seat u c link → chats (m'.letters u link) = chats (m.letters u link) ++
    if u = v ∧ m.isNews v msg.sender k = true ∧ c ≠ msg.sender ∧ c ∉ msg.path then [msg] else []
  last : ∀ u b, (u ≠ v ∨ b ≠ msg.sender ∨ m.isNews v msg.sender k = false) →
    m'.last u b = m.last u b
  recorded : m.isNews v msg.sender k = true →
    (∃ c link, m.Seat v c link ∧ c ≠ msg.sender ∧ c ∉ msg.path) →
      m'.last v msg.sender = some (max ((m.last v msg.sender).getD 0) k)

variable {m m' m'' : Mesh} {u v b c : Id} {st : Station} {msg : Message} {type : MessageType} {k : Nat}
  {link : LinkId} {f g : Frame} {t : Transit} {servers : List Id} {config : Config}

/-- Nothing has happened that has to do with chat, but that `msg` may have been taken off a connection
to `v`. -/
structure Sheds (m m' : Mesh) (v : Id) (msg : Message) : Prop extends Keeps m m' where
  chats : ∀ u w, ∃ gone, chats (m.channel u w) = gone ++ chats (m'.channel u w) ∧
    ∀ c ∈ gone, w = v ∧ c = msg
  letters : ∀ u link, RelayMesh.chats (m'.letters u link) = RelayMesh.chats (m.letters u link)
  honest : m.Honest → m'.Honest

theorem Hush.sheds (h : m.Hush m') (v : Id) (msg : Message) : m.Sheds m' v msg where
  toKeeps := h.toKeeps
  chats u w := ⟨[], (h.chats u w).symm, by simp⟩
  letters := h.letters
  honest := h.honest

theorem Keeps.isNews (h : m.Keeps m') : m'.isNews = m.isNews := by
  funext v b k
  rw [Mesh.isNews, Mesh.isNews, h.last]

theorem Relays.after (h : m.Sheds m' v msg) (h' : m'.Relays m'' v msg k) : m.Relays m'' v msg k where
  still := h.still.trans h'.still
  seat u c link := (h'.seat u c link).trans (h.seat u c link)
  honest hhonest := h'.honest (h.honest hhonest)
  copies u w := by
    obtain ⟨gone, hgone, hleft⟩ := h.chats u w
    obtain ⟨gone', kept, n, hbefore, hafter, hleft', hcopies⟩ := h'.copies u w
    rw [h.still.graph] at hcopies
    refine ⟨gone ++ gone', kept, n, by rw [hgone, hbefore, List.append_assoc], hafter, ?_, hcopies⟩
    exact fun c hc => (List.mem_append.1 hc).elim (hleft c) (hleft' c)
  letters u c link hc := by
    rw [h'.letters u c link ((h.seat u c link).2 hc), h.letters, h.toKeeps.isNews]
  last u b hub := by
    rw [h'.last u b (by rwa [h.toKeeps.isNews]), h.last]
  recorded hnew hc := by
    obtain ⟨c, link, hc, hfree⟩ := hc
    rw [h'.recorded (by rwa [h.toKeeps.isNews]) ⟨c, link, (h.seat v c link).2 hc, hfree⟩, h.last]

theorem isNews_eq (hs : m.station? v = some st) (hseq : msg.sequence? = some k) :
    st.server.isNews msg = m.isNews v msg.sender k := by
  simp only [Server.isNews, hseq, Option.any_some, isNews, last, hs, Option.bind_some,
    Routes.isNewChat]
  cases st.server.routes.lastChat.get? msg.sender <;> rfl

theorem Spacious.hasSpace (h : m.Spacious) (hs : m.station? v = some st) {d : Id} {r : Route}
    (hr : st.server.routes.get? d = some r) : st.server.outbox.HasSpace r.link :=
  h (v, st) (m.stations.mem_toList_iff.2 hs) (d, r) (st.server.routes.entries.mem_toList_iff.2 hr)

theorem kind_of_sequence (h : msg.sequence? = some k) : msg.content.kind = .chat := by
  unfold Message.sequence? at h
  split at h
  next hc => rw [hc]; rfl
  next => cases h

/-- A frame with a chat line in it. -/
theorem chat?_of_frame {s : Server} (hk : msg.content.kind = .chat) (hfit : msg.Fits)
    (hf : s.frame type msg = .ok f) : f.chat? = some msg :=
  Frame.chat?_eq_some.2 ⟨(Frame.carries_of_ofMessage hf).message_of_fits hfit, hk⟩

theorem chats_copies {s : Server} (hk : msg.content.kind = .chat) (hfit : msg.Fits)
    (links : List LinkId) (link : LinkId) : chats (s.copies type msg links link) =
      if (s.frame type msg).isOk then List.replicate (links.count link) msg else [] := by
  unfold Server.copies
  cases hf : s.frame type msg with
  | ok f => exact chats_replicate (chat?_of_frame hk hfit hf) _
  | error why => rfl

theorem honest_copies {s : Server} (hk : msg.content.kind = .chat) (hfit : msg.Fits)
    (htype : MessageType.isForClients type = true) (links : List LinkId) (link : LinkId) :
    ∀ f ∈ s.copies type msg links link, f.Honest := by
  unfold Server.copies
  cases hf : s.frame type msg with
  | ok f =>
    intro g hg
    rw [(List.mem_replicate.1 hg).2, Frame.Honest, chat?_of_frame hk hfit hf,
      Frame.type_of_ofMessage hf]
    exact htype
  | error why => exact fun _ h => absurd h List.not_mem_nil

/-- No two clients share a connection to a server. -/
def Seated (m : Mesh) : Prop := ∀ u st, m.station? u = some st → st.Seated

theorem Keeps.seated (h : m.Keeps m') (hm : m.Seated) : m'.Seated := by
  intro u st' hs' c c' link hc hc'
  obtain ⟨st, hs, hget⟩ := (h.seat u c link).1 ⟨st', hs', hc⟩
  obtain ⟨st₂, hs₂, hget'⟩ := (h.seat u c' link).1 ⟨st', hs', hc'⟩
  obtain rfl : st = st₂ := Option.some.inj (hs.symm.trans hs₂)
  exact hm u st hs c c' link hget hget'

theorem Relayable.copy (h : m.Relayable v f) (hsane : m.Sane) (hs : m.station? v = some st)
    (hchat : f.chat? = some msg) {w : Id} (hw : m.Linked v w) (hsender : w ≠ msg.sender)
    (hpath : w ∉ (msg.appendToPath v).path) :
    (st.server.frame f.type (msg.appendToPath v)).isOk = true := by
  obtain ⟨st', hs', line, hl, hpeer⟩ := linked_iff.1 hw
  obtain rfl : st = st' := Option.some.inj (hs.symm.trans hs')
  have hwired := hsane.wired v st hs
  have hpos : 0 < (st.server.onward msg).count line.link :=
    hwired.count_onward_pos hl hpeer hsender (by rwa [hwired.identity])
  exact (h st hs msg hchat).1 (List.ne_nil_of_mem (List.count_pos_iff.1 hpos))

theorem Relayable.line (h : m.Relayable v f) (hseated : m.Seated) (hs : m.station? v = some st)
    (hchat : f.chat? = some msg) (hseq : msg.sequence? = some k) (hc : m.Seat v c link)
    (hnew : m.isNews v msg.sender k = true) (hsender : c ≠ msg.sender) (hpath : c ∉ msg.path) :
    (st.server.frame f.type msg).isOk = true := by
  obtain ⟨st', hs', hget⟩ := hc
  obtain rfl : st = st' := Option.some.inj (hs.symm.trans hs')
  exact (h st hs msg hchat).2 (List.ne_nil_of_mem ((Station.mem_listeners (hseated v st hs) hget).2
    ⟨(isNews_eq hs hseq).trans hnew, hsender, hpath⟩))

/-- The server `v` is to relay line `k`: its copies can be written, and there will be space for them. -/
structure Relaying (m : Mesh) (v : Id) (st : Station) (type : MessageType) (msg : Message) (k : Nat) :
    Prop where
  sane : m.Sane
  station : m.station? v = some st
  seated : st.Seated
  sequence : msg.sequence? = some k
  fits : msg.Fits
  chat : MessageType.isForClients type = true
  copy : ∀ w, m.Linked v w → w ≠ msg.sender → w ∉ (msg.appendToPath v).path →
    (st.server.frame type (msg.appendToPath v)).isOk = true
  line : ∀ c link, m.Seat v c link → m.isNews v msg.sender k = true → c ≠ msg.sender →
    c ∉ msg.path → (st.server.frame type msg).isOk = true
  space : (m.set v { st with server := st.server.relayChat type msg }).Spacious

namespace Relaying

theorem sends (_ : m.Relaying v st type msg k) :
    st.server.Sends (some msg) (st.server.relayChat type msg) :=
  Server.sends_relayChat st.server type msg.stems_self

theorem hasSpace (h : m.Relaying v st type msg k) {d : Id} {r : Route}
    (hr : st.server.routes.get? d = some r) :
    (st.server.relayChat type msg).outbox.HasSpace r.link := by
  have hself : (m.set v { st with server := st.server.relayChat type msg }).station? v =
      some { st with server := st.server.relayChat type msg } := station?_set_self
  exact h.space.hasSpace hself ((h.sends.get? d).trans hr)

theorem kind (h : m.Relaying v st type msg k) : msg.content.kind = .chat :=
  kind_of_sequence h.sequence

theorem copied (h : m.Relaying v st type msg k) :
    (msg.appendToPath v).content.kind = .chat ∧ (msg.appendToPath v).Fits := by
  have hcontent := Message.content_appendToPath msg v
  refine ⟨by rw [hcontent]; exact h.kind, ?_⟩
  unfold Message.Fits
  rw [hcontent]
  exact h.fits

theorem waiting (h : m.Relaying v st type msg k) {d : Id} {r : Route}
    (hr : st.server.routes.get? d = some r) :
    (st.server.relayChat type msg).outbox.waiting r.link = st.server.outbox.waiting r.link ++
      st.server.copies type (msg.appendToPath v) (st.server.onward msg) r.link ++
        st.server.copies type msg (st.server.listeners msg) r.link := by
  rw [Server.waiting_relayChat h.sequence (h.hasSpace hr), (h.sane.wired v st h.station).identity]

/-- For another server there are only copies. -/
theorem queueTo (h : m.Relaying v st type msg k) (w : Id) : ∃ frames n,
    ({ st with server := st.server.relayChat type msg } : Station).queueTo w =
      st.queueTo w ++ frames ∧ (∀ f ∈ frames, f.Honest) ∧
      chats frames = List.replicate n (msg.appendToPath v) ∧ (n ≠ 0 → m.Linked v w) ∧
      (m.Linked v w → w ≠ msg.sender → w ∉ (msg.appendToPath v).path → 0 < n) := by
  have hw := h.sane.wired v st h.station
  by_cases hline : m.Linked v w
  · obtain ⟨st', hs', line, hl, hpeer⟩ := linked_iff.1 hline
    obtain rfl : st = st' := Option.some.inj (h.station.symm.trans hs')
    have hto : st.lineTo? w = some line := hw.lineTo?_iff.2 ⟨hl, hpeer⟩
    have hto' : ({ st with server := st.server.relayChat type msg } : Station).lineTo? w =
      some line := hto
    have hwaits := h.waiting (hw.direct line hl w hpeer)
    have hnone : st.server.copies type msg (st.server.listeners msg) line.link = [] := by
      unfold Server.copies
      rw [hw.count_listeners_server hl (by simp [hpeer])]
      split <;> rfl
    rw [hnone, List.append_nil] at hwaits
    refine ⟨st.server.copies type (msg.appendToPath v) (st.server.onward msg) line.link,
      if (st.server.frame type (msg.appendToPath v)).isOk then
        (st.server.onward msg).count line.link else 0, ?_, ?_, ?_, fun _ => hline, ?_⟩
    · simpa [Station.queueTo, hto, hto'] using hwaits
    · exact honest_copies h.copied.1 h.copied.2 h.chat _ _
    · rw [chats_copies h.copied.1 h.copied.2]
      split <;> rfl
    · intro _ hsender hpath
      rw [if_pos (h.copy w hline hsender hpath)]
      exact hw.count_onward_pos hl hpeer hsender (by rwa [hw.identity])
  · have hnone : ∀ line ∈ st.lines, line.peer ≠ some w := fun line hl hpeer =>
      hline (linked_iff.2 ⟨st, h.station, line, hl, hpeer⟩)
    have hnone' : ∀ line ∈ ({ st with server := st.server.relayChat type msg } : Station).lines,
      line.peer ≠ some w := hnone
    refine ⟨[], 0, ?_, by simp, rfl, fun h => absurd rfl h, fun h => absurd h hline⟩
    rw [Station.queueTo_eq_nil hnone, Station.queueTo_eq_nil hnone']
    rfl

/-- A client gets a line that is new, unless it is its own. -/
theorem letters (h : m.Relaying v st type msg k)
    (hc : st.server.routes.get? c = some ⟨.client, link⟩) :
    chats ((st.server.relayChat type msg).outbox.waiting link) =
      chats (st.server.outbox.waiting link) ++
        if m.isNews v msg.sender k = true ∧ c ≠ msg.sender ∧ c ∉ msg.path then [msg] else [] := by
  have hseat : m.Seat v c link := ⟨st, h.station, hc⟩
  have hwaits := h.waiting hc
  have hnone : st.server.copies type (msg.appendToPath v) (st.server.onward msg) link = [] := by
    unfold Server.copies
    rw [(h.sane.wired v st h.station).count_onward_client hc]
    split <;> rfl
  rw [hwaits, hnone, List.append_nil, chats_append, chats_copies h.kind h.fits,
    Station.count_listeners h.seated hc, isNews_eq h.station h.sequence]
  by_cases hgets : m.isNews v msg.sender k = true ∧ c ≠ msg.sender ∧ c ∉ msg.path
  · rw [if_pos hgets, if_pos hgets, if_pos (h.line c link hseat hgets.1 hgets.2.1 hgets.2.2)]
    rfl
  · rw [if_neg hgets, if_neg hgets]
    split <;> rfl

theorem channel (h : m.Relaying v st type msg k) (u w : Id) : ∃ frames n,
    (m.set v { st with server := st.server.relayChat type msg }).channel u w =
      m.channel u w ++ frames ∧ (∀ f ∈ frames, f.Honest) ∧
      chats frames = List.replicate n (msg.appendToPath v) ∧ (n ≠ 0 → u = v ∧ m.Linked u w) ∧
      (u = v → m.Linked u w → w ≠ msg.sender → w ∉ (msg.appendToPath v).path → 0 < n) := by
  by_cases hu : u = v
  · subst hu
    obtain ⟨frames, n, hq, hhonest, hchats, hline, hpos⟩ := h.queueTo w
    refine ⟨frames, n, ?_, hhonest, hchats, fun hn => ⟨rfl, hline hn⟩, fun _ => hpos⟩
    rw [Mesh.channel, Mesh.channel, station?_set_self, h.station, Option.elim_some,
      Option.elim_some, hq, List.append_assoc]
    rfl
  · refine ⟨[], 0, ?_, by simp, rfl, fun h => absurd rfl h, fun h => absurd h hu⟩
    rw [Mesh.channel, Mesh.channel, station?_set_ne hu, List.append_nil]
    rfl

theorem station?_relayed (u : Id) :
    (m.set v { st with server := st.server.relayChat type msg }).station? u =
      if u = v then some { st with server := st.server.relayChat type msg } else m.station? u :=
  m.station?_set v _ u

/-- What the server has recorded of others stays, and so does all if the line is none that is new. -/
theorem last (h : m.Relaying v st type msg k) {u b : Id}
    (hub : u ≠ v ∨ b ≠ msg.sender ∨ m.isNews v msg.sender k = false) :
    (m.set v { st with server := st.server.relayChat type msg }).last u b = m.last u b := by
  by_cases hu : u = v
  · subst hu
    simp only [Mesh.last, station?_relayed, if_true, h.station, Option.bind_some]
    rcases Server.lastChat_relayChat_eq h.sequence type with hold | ⟨hnew, hrecorded⟩
    · rw [hold]
    · have hb : b ≠ msg.sender := by
        rcases hub with hu | hb | hold
        · exact absurd rfl hu
        · exact hb
        · rw [← isNews_eq h.station h.sequence, hnew] at hold
          cases hold
      simp [hrecorded, Routes.get?_recordChat, hb]
  · simp [Mesh.last, station?_relayed, hu]

/-- A line that is new to a client of the server is recorded. -/
theorem recorded (h : m.Relaying v st type msg k) (hnew : m.isNews v msg.sender k = true)
    (hc : m.Seat v c link) (hsender : c ≠ msg.sender) (hpath : c ∉ msg.path) :
    (m.set v { st with server := st.server.relayChat type msg }).last v msg.sender =
      some (max ((m.last v msg.sender).getD 0) k) := by
  have hok := h.line c link hc hnew hsender hpath
  obtain ⟨st', hs', hget⟩ := hc
  obtain rfl : st = st' := Option.some.inj (h.station.symm.trans hs')
  have hlistens : link ∈ st.server.listeners msg :=
    (Station.mem_listeners h.seated hget).2
      ⟨(isNews_eq h.station h.sequence).trans hnew, hsender, hpath⟩
  simp only [Mesh.last, station?_relayed, if_true, h.station, Option.bind_some,
    Server.lastChat_relayChat h.sequence hok hlistens (h.hasSpace hget), Routes.get?_recordChat]

theorem relays (h : m.Relaying v st type msg k) :
    m.Relays (m.set v { st with server := st.server.relayChat type msg }) v msg k where
  still := still_set h.station (Station.alike_of_sends h.sends).outfit
  seat u c link := by
    by_cases hu : u = v
    · simp [Seat, hu, h.station, h.sends.get?]
    · simp [Seat, station?_relayed, hu]
  honest hhonest u w frame hframe := by
    obtain ⟨frames, n, hchannel, hnew, -⟩ := h.channel u w
    rw [hchannel] at hframe
    exact (List.mem_append.1 hframe).elim (hhonest u w frame) (hnew frame)
  copies u w := by
    obtain ⟨frames, n, hchannel, -, hchats, hself, hpos⟩ := h.channel u w
    rw [h.sane.adj_iff]
    exact ⟨[], chats (m.channel u w), n, rfl, by rw [hchannel, chats_append, hchats], by simp, hself,
      hpos⟩
  letters u c link hc := by
    obtain ⟨st', hs', hget⟩ := hc
    by_cases hu : u = v
    · subst hu
      obtain rfl : st = st' := Option.some.inj (h.station.symm.trans hs')
      simp only [Mesh.letters, station?_relayed, if_true, h.station, Option.elim_some, h.letters hget,
        true_and]
    · simp [Mesh.letters, station?_relayed, hu]
  last _ _ := h.last
  recorded hnew hc := by
    obtain ⟨c, link, hc, hsender, hpath⟩ := hc
    exact h.recorded hnew hc hsender hpath

end Relaying

theorem hush_deliver (h : m.Calm servers config) (hchat : t.frame.chat? = none)
    (hhonest : t.frame.Honest) : m.Hush (m.deliver t) := by
  have htype : MessageType.isForClients t.frame.type = false := by
    rw [hhonest, hchat]
    rfl
  rcases h.toSane.deliver_cases t with hsame | ⟨st, line, msg, hh⟩
  · rw [hsame]
    exact m.hush_refl
  · have hkind : msg.content.kind ≠ .chat := fun hkind => by
      rw [Frame.chat?_eq_some.2 ⟨hh.read, hkind⟩] at hchat
      cases hchat
    rw [hh.deliver_calm h]
    exact hush_set hh.station
      ((Server.hush_learnRoutes _ msg _).trans (Server.hush_dispatch m.hooks _ htype hkind))

/-- A chat line comes from a neighbour: the server learns from its path, and then it relays it. -/
theorem relays_deliver (h : m.Calm servers config) (hseated : m.Seated)
    (hadj : m.graph.Adj t.source t.target) (hchat : t.frame.chat? = some msg)
    (hhonest : t.frame.Honest) (hseq : msg.sequence? = some k) (hfit : msg.Fits)
    (hrelayable : m.Relayable t.target t.frame) (hspace : (m.deliver t).Spacious) :
    m.Relays (m.deliver t) t.target msg k := by
  have hread := (Frame.chat?_eq_some.1 hchat).1
  have htype := hhonest.isForClients hchat
  obtain ⟨st, hs, line, hl, hpeer⟩ :=
    linked_iff.1 (h.symm _ _ (h.toSane.adj_iff.1 hadj))
  have hh : m.Handles t st line msg := ⟨hs, hl, hpeer, h.up _ st hs, hread⟩
  let taught : Station := { st with server := st.server.learnRoutes msg line.link }
  have hself : (m.set t.target taught).station? t.target = some taught := station?_set_self
  have hhush : m.Hush (m.set t.target taught) := hush_set hs (Server.hush_learnRoutes _ msg _)
  have hsends : (st.taught msg.path line.link).server.Sends none taught.server :=
    Server.sends_learnRoutes st.server msg line.link
  have hlearned := (hh.grown h.toSane).1.sane.act station?_set_self hsends
  rw [set_set] at hlearned
  have hsane : (m.set t.target taught).Sane := hlearned.sane
  have hdelivered : m.deliver t = (m.set t.target taught).set t.target
      { taught with server := taught.server.relayChat t.frame.type msg } := by
    rw [set_set, hh.deliver_calm h]
    simp only [Server.dispatch, htype, if_true, taught]
  rw [hdelivered] at hspace ⊢
  have hrelaying : (m.set t.target taught).Relaying t.target taught t.frame.type msg k := by
    refine ⟨hsane, hself, hhush.toKeeps.seated hseated _ _ hself, hseq, hfit, htype,
      fun w hw => ?_, fun c edge hc => ?_, hspace⟩
    · rw [← hsane.adj_iff, hhush.still.graph, h.toSane.adj_iff] at hw
      rw [Server.frame_learnRoutes st.server msg line.link]
      exact hrelayable.copy h.toSane hs hchat hw
    · rw [Server.frame_learnRoutes st.server msg line.link, hhush.toKeeps.isNews]
      exact hrelayable.line hseated hs hchat hseq ((hhush.seat _ _ _).1 hc)
  exact hrelaying.relays.after (hhush.sheds _ _)

/-- A chat line comes from a client of the server. -/
theorem relays_arrive (h : m.Calm servers config) (hseated : m.Seated) (hseat : m.Seat v c link)
    (hchat : f.chat? = some msg) (hhonest : f.Honest) (hseq : msg.sequence? = some k)
    (hfit : msg.Fits) (hrelayable : m.Relayable v f) (hspace : (m.arrive v link f).Spacious) :
    m.Relays (m.arrive v link f) v msg k := by
  obtain ⟨hread, hkind⟩ := Frame.chat?_eq_some.1 hchat
  have htype := hhonest.isForClients hchat
  obtain ⟨st, hs, hget⟩ := hseat
  have hw := h.wired v st hs
  obtain ⟨-, hfree⟩ := hw.clients c link hget
  have hat : ∃ r, st.server.routes.atLink link = some r ∧ r.2.isClient = true := by
    cases hr : st.server.routes.atLink link with
    | none =>
      have hno := List.find?_eq_none.1 hr (c, ⟨.client, link⟩)
        (st.server.routes.entries.mem_toList_iff.2 hget)
      simp [Route.isClient] at hno
    | some r => exact ⟨r, rfl, hw.isClient_of_atLink hfree hr⟩
  obtain ⟨⟨d, r⟩, hr, hclient⟩ := hat
  have harrived : m.arrive v link f =
      m.set v { st with server := st.server.relayChat f.type msg } := by
    have hhandled : st.server.handleFrame m.hooks link f = (st.server.relayChat f.type msg, none) := by
      simp only [Server.handleFrame, hr, hread, hclient, htype, hkind, and_self, if_true]
    simp only [arrive, hs, Server.arrive, h.up v st hs, Bool.false_eq_true, if_false, hhandled,
      Option.toList_none, List.append_nil, waiting_set]
    rfl
  rw [harrived] at hspace ⊢
  have hrelaying : m.Relaying v st f.type msg k :=
    ⟨h.toSane, hs, hseated v st hs, hseq, hfit, htype, fun w => hrelayable.copy h.toSane hs hchat,
      fun c edge => hrelayable.line hseated hs hchat hseq, hspace⟩
  exact hrelaying.relays

section Moves

/-- The frame at this place is the oldest one from its source to its target. -/
def Oldest (m : Mesh) (place : Nat) : Prop :=
  ∀ t ∈ m.wire[place]?, ∀ t' ∈ m.wire.take place, ¬ (t'.source = t.source ∧ t'.target = t.target)

/-- What goes on among the servers: the next frame on some connection arrives, operators give
commands, time passes. -/
def Allows (m : Mesh) : Move → Prop
  | .deliver place => m.Oldest place ∧ ∀ t ∈ m.wire[place]?, m.Relayable t.target t.frame
  | .step (.at _ (.command c)) => c.isQuiet = true
  | .step (.advance _) => True
  | _ => False

instance (m : Mesh) (place : Nat) : Decidable (m.Oldest place) :=
  inferInstanceAs (Decidable (∀ t ∈ m.wire[place]?, ∀ t' ∈ m.wire.take place,
    ¬ (t'.source = t.source ∧ t'.target = t.target)))

instance (m : Mesh) : ∀ mv, Decidable (m.Allows mv)
  | .deliver place => inferInstanceAs (Decidable (m.Oldest place ∧
      ∀ t ∈ m.wire[place]?, m.Relayable t.target t.frame))
  | .step (.at _ (.command c)) => inferInstanceAs (Decidable (c.isQuiet = true))
  | .step (.advance _) => .isTrue trivial
  | .join _ _ => .isFalse id
  | .step (.at _ (.client _ _)) => .isFalse id
  | .step (.at _ (.neighbour _ _ _)) => .isFalse id
  | .step (.at _ (.frame _ _ _)) => .isFalse id
  | .step (.at _ (.closed _)) => .isFalse id
  | .step (.at _ (.unhold _)) => .isFalse id
  | .step (.at _ (.dropQueue _)) => .isFalse id
  | .step (.at _ (.closeLine _ _)) => .isFalse id
  | .step (.at _ (.start _)) => .isFalse id
  | .step (.enable _) => .isFalse id
  | .step (.pick _) => .isFalse id
  | .step (.lose _) => .isFalse id
  | .step (.cut _ _) => .isFalse id

variable {place : Nat}

/-- The oldest frame on a connection is taken off the wire. -/
theorem channel_erase (hold : m.Oldest place) (ht : m.wire[place]? = some t) (u w : Id) :
    m.channel u w = (if t.source = u ∧ t.target = w then [t.frame] else []) ++
      ({ m with wire := m.wire.eraseIdx place } : Mesh).channel u w := by
  obtain ⟨hlt, hget⟩ := List.getElem?_eq_some_iff.1 ht
  have hwire : m.wire = m.wire.take place ++ t :: m.wire.drop (place + 1) := by
    rw [← hget, List.cons_getElem_drop_succ, List.take_append_drop]
  have honWire : m.onWire u w = (if t.source = u ∧ t.target = w then [t.frame] else []) ++
      ({ m with wire := m.wire.eraseIdx place } : Mesh).onWire u w := by
    rw [onWire, onWire, List.eraseIdx_eq_take_drop_succ]
    conv_lhs => rw [hwire]
    rw [List.filter_append, List.filter_append, List.filter_cons]
    split
    next huw =>
      have huw : t.source = u ∧ t.target = w := by simpa using huw
      have hfront : (m.wire.take place).filter (fun t => t.source = u ∧ t.target = w) = [] :=
        List.filter_eq_nil_iff.2 fun t' ht' => by
          have hno := hold t ht t' ht'
          rw [huw.1, huw.2] at hno
          simpa using hno
      rw [hfront, if_pos huw]
      rfl
    next huw =>
      have huw : ¬ (t.source = u ∧ t.target = w) := by simpa using huw
      rw [if_neg huw]
      rfl
  rw [channel, channel, honWire, List.append_assoc]
  rfl

theorem keeps_erase (m : Mesh) (place : Nat) :
    m.Keeps { m with wire := m.wire.eraseIdx place } :=
  ⟨⟨rfl, rfl, fun _ => rfl⟩, fun _ _ => rfl, fun _ _ _ => Iff.rfl⟩

theorem Plain.erase (h : m.Plain) (place : Nat) :
    ({ m with wire := m.wire.eraseIdx place } : Mesh).Plain :=
  ⟨fun t ht => h.wire t (List.eraseIdx_subset ht), h.letters⟩

theorem Honest.erase (h : m.Honest) (hold : m.Oldest place) (ht : m.wire[place]? = some t) :
    ({ m with wire := m.wire.eraseIdx place } : Mesh).Honest := fun u w f hf =>
  h u w f (by rw [channel_erase hold ht]; exact List.mem_append_right _ hf)

/-- A frame without chat is taken off the wire. -/
theorem hush_erase (hold : m.Oldest place) (ht : m.wire[place]? = some t)
    (hchat : t.frame.chat? = none) : m.Hush { m with wire := m.wire.eraseIdx place } := by
  refine ⟨m.keeps_erase place, fun u w => ?_, fun _ _ => rfl, fun hh => hh.erase hold ht,
    fun hp => hp.erase place⟩
  rw [channel_erase hold ht u w, chats_append]
  split
  · simp [chats, hchat]
  · rfl

/-- A frame with a chat line is taken off the wire. -/
theorem sheds_erase (hold : m.Oldest place) (ht : m.wire[place]? = some t)
    (hchat : t.frame.chat? = some msg) :
    m.Sheds { m with wire := m.wire.eraseIdx place } t.target msg := by
  refine ⟨m.keeps_erase place, fun u w => ⟨_, by rw [channel_erase hold ht, chats_append],
    fun c hc => ?_⟩, fun _ _ => rfl, fun hh => hh.erase hold ht⟩
  split at hc
  next huw =>
    refine ⟨huw.2.symm, ?_⟩
    simpa [chats, hchat] using hc
  next => exact absurd hc List.not_mem_nil

theorem Allows.admits {mv : Move} (h : m.Allows mv) : m.Admits mv := by
  cases mv with
  | join _ _ => exact h.elim
  | deliver _ => trivial
  | step s =>
    cases s with
    | «at» id s =>
      cases s with
      | command c => exact fun st _ => Command.fresh_of_isQuiet h
      | _ => exact h.elim
    | advance _ => trivial
    | _ => exact h.elim

theorem hush_effect {s : Step} (hs : m.Allows (.step s)) : m.Hush (m.effect (.step s)) := by
  cases s with
  | «at» id s =>
    cases s with
    | command c =>
      cases hst : m.station? id with
      | none =>
        rw [effect_at_none hst]
        exact m.hush_refl
      | some st =>
        rw [effect_at hst]
        exact hush_set hst (Server.hush_obey st.server hs)
    | _ => exact hs.elim
  | advance ms => exact m.hush_updateAll fun s => Server.hush_advance s ms
  | _ => exact hs.elim

/-- What a move among the servers does to chat: nothing, or the next line on a connection gets
relayed. -/
theorem Calm.effect_chat (h : m.Calm servers config) (hseated : m.Seated) (hhonest : m.Honest)
    (hnear : ∀ u w, chats (m.channel u w) ≠ [] → m.graph.Adj u w)
    (hlines : ∀ u w, ∀ msg ∈ chats (m.channel u w), msg.sequence?.isSome ∧ msg.Fits)
    {mv : Move} (hmv : m.Allows mv) (hspace : (m.effect mv).Spacious) :
    m.Hush (m.effect mv) ∨ ∃ u v msg rest k, m.graph.Adj u v ∧ chats (m.channel u v) = msg :: rest ∧
      msg.sequence? = some k ∧ m.Relays (m.effect mv) v msg k := by
  cases mv with
  | join _ _ => exact hmv.elim
  | deliver place =>
    obtain ⟨hold, hrelayable⟩ := hmv
    cases ht : m.wire[place]? with
    | none =>
      rw [effect_deliver_none ht]
      exact .inl m.hush_refl
    | some t =>
      have hchannel := channel_erase hold ht t.source t.target
      rw [if_pos ⟨rfl, rfl⟩] at hchannel
      have htrue : t.frame.Honest :=
        hhonest t.source t.target _ (by rw [hchannel]; exact List.mem_cons_self)
      rw [effect_deliver ht] at hspace ⊢
      cases hchat : t.frame.chat? with
      | none => exact .inl ((hush_erase hold ht hchat).trans (hush_deliver (h.erase place) hchat htrue))
      | some msg =>
        have hhead : chats (m.channel t.source t.target) =
            msg :: chats (({ m with wire := m.wire.eraseIdx place } : Mesh).channel
              t.source t.target) := by
          rw [hchannel, chats_append]
          simp [chats, hchat]
        have hadj := hnear t.source t.target (by rw [hhead]; exact List.cons_ne_nil _ _)
        obtain ⟨hseq, hfit⟩ := hlines t.source t.target msg (by rw [hhead]; exact List.mem_cons_self)
        obtain ⟨k, hk⟩ := Option.isSome_iff_exists.1 hseq
        exact .inr ⟨t.source, t.target, msg, _, k, hadj, hhead, hk,
          (relays_deliver (h.erase place) hseated hadj hchat htrue hk hfit (hrelayable t ht)
            hspace).after (sheds_erase hold ht hchat)⟩
  | step s => exact .inl (hush_effect hmv)

end Moves

end Mesh

end RelayMesh
