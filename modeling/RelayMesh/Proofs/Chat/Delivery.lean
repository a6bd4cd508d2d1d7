import RelayMesh.Proofs.Chat.Clients

namespace RelayMesh

namespace Forum

/-- The servers are calm and have the clients of the forum, and the lines of every client are on
their way. -/
structure Told (servers : List Id) (config : Config) (f : Forum) : Prop where
  calm : f.mesh.Calm servers config
  connected : ∀ u ∈ servers, ∀ v ∈ servers, f.mesh.graph.Reachable u v
  seated : f.mesh.Seated
  honest : f.mesh.Honest
  /-- Chat is only ever on its way between neighbours. -/
  near : ∀ u v, chats (f.mesh.channel u v) ≠ [] → f.mesh.graph.Adj u v
  distinct : (f.members.map Member.id).Nodup
  seats : ∀ u c link, f.mesh.Seat u c link ↔ (u, c, link) ∈ f.members.map Member.seat
  steady : ∀ p ∈ f.members, p.Steady
  talks : ∀ b, ∃ lines heard, f.Talk b lines heard

variable {f f' : Forum} {change : Member → Member} {b u v who : Id} {lines : List ChatLine}
  {heard : Id → Nat} {p q : Member} {msg : Message} {line : ChatLine} {text : String}
  {frame : Frame} {servers : List Id} {config : Config}

namespace Told

variable (h : f.Told servers config)

include h

theorem seat (hp : p ∈ f.members) : f.mesh.Seat p.home p.id p.link :=
  (h.seats _ _ _).2 (List.mem_map_of_mem hp)

theorem eq_of_id (hp : p ∈ f.members) (hq : q ∈ f.members) (hid : p.id = q.id) : p = q :=
  List.inj_on_of_nodup_map h.distinct hp hq hid

/-- Every line on its way is one that its sender has said. -/
theorem line_of_chat (hmsg : msg ∈ chats (f.mesh.channel u v)) : ∃ lines heard line,
    f.Talk msg.sender lines heard ∧ msg.line? = some line ∧ lines[line.sequence]? = some line ∧
      line.sequence < UInt64.size := by
  obtain ⟨lines, heard, htalk⟩ := h.talks msg.sender
  obtain ⟨line, hline, hget⟩ := htalk.texts u v msg hmsg rfl
  have hlt : line.sequence < lines.length := (List.getElem?_eq_some_iff.1 hget).1
  exact ⟨lines, heard, line, htalk, hline, hget,
    Nat.lt_of_lt_of_le hlt (htalk.length_le fun p hp => (h.steady p hp).fits)⟩

theorem step (ht : f.Tracks f' change) (hsane : f'.mesh.Sane) (hhonest : f'.mesh.Honest)
    (hnear : ∀ u v, chats (f'.mesh.channel u v) ≠ [] → f.mesh.graph.Adj u v)
    (hsteady : ∀ p ∈ f.members, (change p).Steady)
    (htalks : ∀ b, ∃ lines heard, f'.Talk b lines heard) : f'.Told servers config where
  calm := h.calm.still hsane ht.still
  connected := by
    rw [ht.still.graph]
    exact h.connected
  seated := by
    intro u st' hs' c c' link hc hc'
    obtain ⟨st, hs, hget⟩ := (ht.seat u c link).1 ⟨st', hs', hc⟩
    obtain ⟨st₂, hs₂, hget'⟩ := (ht.seat u c' link).1 ⟨st', hs', hc'⟩
    obtain rfl : st = st₂ := Option.some.inj (hs.symm.trans hs₂)
    exact h.seated u st hs c c' link hget hget'
  honest := hhonest
  near := by rwa [ht.still.graph]
  distinct := by
    have hids : f'.members.map Member.id = f.members.map Member.id := by
      have hseats := congrArg (List.map fun s : Id × Id × LinkId => s.2.1) ht.seats
      rwa [List.map_map, List.map_map] at hseats
    rw [hids]
    exact h.distinct
  seats u c link := by rw [ht.seat, ht.seats, h.seats]
  steady := ht.forall_members hsteady
  talks := htalks

/-- Nothing has happened to any lines, but that they have come nearer to clients. -/
theorem spare (ht : f.Tracks f' change) (hsane : f'.mesh.Sane) (hhonest : f'.mesh.Honest)
    (hchats : ∀ u v, chats (f'.mesh.channel u v) = chats (f.mesh.channel u v))
    (hsteady : ∀ p ∈ f.members, (change p).Steady) (hs : ∀ b, f.Spares f' change b) :
    f'.Told servers config := by
  refine h.step ht hsane hhonest (fun u v hchat => h.near u v (by rwa [hchats] at hchat)) hsteady
    fun b => ?_
  obtain ⟨lines, heard, htalk⟩ := h.talks b
  exact ⟨lines, heard, htalk.spare ht (hs b)⟩

/-- A server has relayed a line of one client. -/
theorem relay (ht : f.Tracks f' change) (hr : f.Relays f' change v msg line)
    (hsane : f'.mesh.Sane) (hsteady : ∀ p ∈ f.members, (change p).Steady)
    (hout : ∀ p ∈ f.members, p.id ≠ msg.sender → (change p).outgoing = p.outgoing)
    (htalk : ∃ lines heard, f'.Talk msg.sender lines heard) : f'.Told servers config := by
  refine h.step ht hsane (hr.relays.honest h.honest) (fun u w hchat => ?_) hsteady fun b => ?_
  · obtain ⟨gone, kept, n, hbefore, hafter, -, hnew, -⟩ := hr.relays.copies u w
    by_cases hn : n = 0
    · refine h.near u w fun hnone => hchat ?_
      rw [hbefore] at hnone
      rw [hafter, (List.append_eq_nil_iff.1 hnone).2, hn]
      rfl
    · exact (hnew hn).2
  · by_cases hb : b = msg.sender
    · rw [hb]
      exact htalk
    · obtain ⟨lines, heard, hold⟩ := h.talks b
      refine ⟨lines, heard, hold.spare ht (hr.spares ht hb (fun p hp hid => ?_) fun p => h.seat)⟩
      exact hout p hp (by rw [hid]; exact hb)

end Told

section Events

/-- A client does something by itself. -/
theorem tracks_update (f : Forum) (who : Id) {c : Member → Member}
    (hc : ∀ p ∈ f.members, (c p).seat = p.seat) :
    f.Tracks (f.update who c) fun p => if p.id = who then c p else p where
  still := f.mesh.still_refl
  seat _ _ _ := Iff.rfl
  members := rfl
  stays p hp := by
    split
    · exact hc p hp
    · rfl

namespace Told

variable (h : f.Told servers config)

include h

/-- A client says nothing, and loses no line of others. -/
theorem update (who : Id) {c : Member → Member} (hc : ∀ p ∈ f.members, p.Hush (c p))
    (hout : ∀ p ∈ f.members, (c p).outgoing = p.outgoing)
    (hown : ∀ p ∈ f.members, ∀ line ∈ (c p).client.received, line.sender ≠ p.id)
    (hinbox : ∀ p ∈ f.members, ∀ b, p.id ≠ b →
      (f.inbox (c p)).filter (·.sender = b) = (f.inbox p).filter (·.sender = b)) :
    (f.update who c).Told servers config := by
  refine h.spare (f.tracks_update who fun p hp => (hc p hp).seat) h.calm.toSane h.honest
    (fun _ _ => rfl) (fun p hp => ?_) fun b => ⟨fun _ => rfl, fun _ _ => rfl, fun p hp _ => ?_,
      fun p hp _ => ?_, fun p hp hb => ?_⟩
  · split
    · refine (hc p hp).steady (h.steady p hp) (hown p hp) ?_
      rw [hout p hp]
      exact (h.steady p hp).outgoing
    · exact h.steady p hp
  · split
    · exact (hc p hp).said
    · rfl
  · split
    · exact hout p hp
    · rfl
  · split
    · exact hinbox p hp b hb
    · rfl

theorem flush (who : Id) : (f.update who (·.flush)).Told servers config := by
  refine h.update who (fun p _ => p.hush_flush) (fun p _ => p.outgoing_flush) (fun p hp => ?_)
    fun p _ b _ => ?_
  · rw [p.received_flush]
    exact (h.steady p hp).own
  · have hhome : p.flush.home = p.home := congrArg (·.1) p.hush_flush.seat
    have hlink : p.flush.link = p.link := congrArg (·.2.2) p.hush_flush.seat
    rw [inbox, inbox, p.received_flush, p.downstream_flush, hhome, hlink]

theorem hear (who : Id) : (f.update who (·.hear)).Told servers config :=
  h.update who (fun p hp => Member.hush_hear (h.steady p hp).listening)
    (fun p hp => Member.outgoing_hear (h.steady p hp).listening)
    (fun p hp => Member.own_hear (h.steady p hp))
    fun p hp _ hb => f.inbox_hear (h.steady p hp).listening hb

/-- A new line of a client comes after all that it has said. -/
theorem talk_says (hp : p ∈ f.members) {text : String} {frame : Frame}
    (hs : p.Says (p.say text) text frame) (hfits : p.client.nextSequence < UInt64.size)
    (ht : f.Talk p.id lines heard) : (f.update p.id (·.say text)).Talk p.id
      (lines ++ [⟨p.id, p.client.nextSequence, text⟩]) heard := by
  have htracks := f.tracks_update p.id fun q _ => q.seat_say text
  have hself {q : Member} (hq : q ∈ f.members) (hid : q.id = p.id) : q = p := h.eq_of_id hq hp hid
  exact {
    voice := htracks.forall_members fun q hq hid => by
      have hid := (htracks.id hq).symm.trans hid
      obtain rfl := hself hq hid
      rw [if_pos rfl, hs.lines (h.steady q hq), ht.voice q hq rfl]
    silent := fun hnone => absurd rfl (htracks.silent hnone p hp)
    bound := fun u => by
      rw [List.length_append]
      exact Nat.le_trans (ht.bound u) (Nat.le_add_right _ _)
    servers := ht.servers
    first := htracks.forall_members fun q hq hid u => by
      rw [htracks.home hq]
      exact ht.first q hq ((htracks.id hq).symm.trans hid) u
    sound := ht.sound
    texts := fun u v msg hmsg hb => by
      obtain ⟨line, hline, hget⟩ := ht.texts u v msg hmsg hb
      refine ⟨line, hline, ?_⟩
      rw [List.getElem?_append_left (List.getElem?_eq_some_iff.1 hget).1]
      exact hget
    last := ht.last
    inbox := htracks.forall_members fun q hq hid => by
      have hid : q.id ≠ p.id := (htracks.id hq) ▸ hid
      rw [htracks.home hq, List.take_append_of_le_length (ht.bound _), if_neg hid]
      exact ht.inbox q hq hid
    outgoing := htracks.forall_members fun q hq hid => by
      have hid := (htracks.id hq).symm.trans hid
      obtain rfl := hself hq hid
      rw [htracks.home hq, if_pos rfl, hs.outgoing, List.map_append, ht.outgoing q hq rfl,
        List.drop_append_of_le_length (ht.bound _), List.map_append]
      simp [hs.chat hfits] }

theorem say (who : Id) (text : String) (hregular : f.Regular (.say who text)) :
    (f.update who (·.say text)).Told servers config := by
  have htracks := f.tracks_update who fun q _ => q.seat_say text
  have one (q : Member) (hq : q ∈ f.members) : (if q.id = who then q.say text else q) = q ∨
      q.id = who ∧ ∃ frame, q.Says (q.say text) text frame := by
    split
    next hid => exact (q.say_cases text).imp id fun hs => ⟨hid, hs⟩
    next => exact .inl rfl
  refine h.step htracks h.calm.toSane h.honest h.near (fun q hq => ?_) fun b => ?_
  · rcases one q hq with hsame | ⟨hid, frame, hs⟩
    · rw [hsame]
      exact h.steady q hq
    · rw [if_pos hid]
      exact hs.steady (h.steady q hq) (hregular q hq hid)
  · obtain ⟨lines, heard, ht⟩ := h.talks b
    by_cases hsays : ∃ p ∈ f.members, p.id = who ∧ p.id = b ∧ ∃ frame, p.Says (p.say text) text frame
    · obtain ⟨p, hp, rfl, rfl, frame, hs⟩ := hsays
      exact ⟨_, heard, h.talk_says hp hs (hregular p hp rfl) ht⟩
    · have hsame (q : Member) (hq : q ∈ f.members) (hid : q.id = b) :
          (if q.id = who then q.say text else q) = q :=
        (one q hq).resolve_right fun ⟨hwho, hs⟩ => hsays ⟨q, hq, hwho, hid, hs⟩
      refine ⟨lines, heard, ht.spare htracks ⟨fun _ => rfl, fun _ _ => rfl, fun q hq hid => ?_,
        fun q hq hid => ?_, fun q hq _ => ?_⟩⟩
      · rw [hsame q hq hid]
      · rw [hsame q hq hid]
      · have hinbox : (f.update who (·.say text)).inbox (if q.id = who then q.say text else q) =
            f.inbox q := by
          rcases one q hq with hsame | ⟨hid, frame, hs⟩
          · rw [hsame]
            rfl
          · rw [if_pos hid, inbox, inbox, hs.received, hs.downstream,
              show (q.say text).home = q.home from congrArg (·.1) hs.seat,
              show (q.say text).link = q.link from congrArg (·.2.2) hs.seat]
            rfl
        rw [hinbox]

theorem sane_arrive (hp : p ∈ f.members) (hchat : frame.chat? = some msg) (hpath : msg.path = []) :
    (f.mesh.arrive p.home p.link frame).Sane := by
  obtain ⟨st, hs, hclient⟩ := h.seat hp
  have hread := (Frame.chat?_eq_some.1 hchat).1
  have hlink := ((h.calm.wired _ st hs).clients _ _ hclient).2
  have harrives : Mesh.Turn (fun _ => True) f.mesh (f.mesh.arrive p.home p.link frame) := by
    refine Mesh.arrive_client h.calm.toSane hs hlink fun msg' hmsg => ?_
    rw [← Except.ok.inj (hread.symm.trans hmsg)]
    exact hpath
  exact (h.calm.toSane.turn harrives).sane

/-- The oldest frame of a client comes to its server, which has handled all lines before. -/
theorem submit (hp : p ∈ f.members) {frame : Frame} {rest : List Frame}
    (hup : p.upstream = frame :: rest) (hrelayable : f.mesh.Relayable p.home frame)
    (hspace : (f.submit p frame rest).mesh.Spacious) :
    (f.submit p frame rest).Told servers config := by
  have hself {q : Member} (hq : q ∈ f.members) (hid : q.id = p.id) : q = p :=
    h.eq_of_id hq hp hid
  have hsent : p.outgoing = frame :: (rest ++ p.client.queue.elim [] (·.frames)) := by
    rw [Member.outgoing, hup, List.cons_append]
  obtain ⟨lines, heard, ht⟩ := h.talks p.id
  obtain ⟨line, hget, hnumber, hsender, hchat, hlater⟩ := ht.next hp rfl hsent
  have hlt : line.sequence < lines.length := hnumber ▸ (List.getElem?_eq_some_iff.1 hget).1
  have hfits : line.message.Fits := Nat.lt_of_lt_of_le hlt
    (ht.length_le fun q hq => (h.steady q hq).fits)
  have hhonest : frame.Honest :=
    (h.steady p hp).outgoing frame (by rw [hsent]; exact List.mem_cons_self)
  have hrelays := Mesh.relays_arrive h.calm h.seated (h.seat hp) hchat hhonest rfl hfits hrelayable
    hspace
  have htracks : f.Tracks (f.submit p frame rest)
      fun q => if q.id = p.id then { q with upstream := rest } else q :=
    ⟨hrelays.still, hrelays.seat, rfl, fun q _ => by split <;> rfl⟩
  have hr : f.Relays (f.submit p frame rest)
      (fun q => if q.id = p.id then { q with upstream := rest } else q) p.home line.message line :=
    ⟨hrelays, rfl, fun q _ => by split <;> rfl, fun q _ => by split <;> rfl,
      fun q _ => by split <;> rfl⟩
  obtain ⟨st, hs, -⟩ := h.seat hp
  have hsame : line.message.sender = p.id := hsender
  refine h.relay htracks hr (h.sane_arrive hp hchat rfl) (fun q hq => ?_) (fun q hq hid => ?_)
    ⟨lines, Flow.handle heard p.home line.sequence, ?_⟩
  · split
    next hid =>
      have hhush : q.Hush { q with upstream := rest } := ⟨rfl, rfl, rfl, rfl⟩
      refine hhush.steady (h.steady q hq) (h.steady q hq).own fun g hg => ?_
      obtain rfl := hself hq hid
      exact (h.steady q hq).outgoing g (by rw [hsent]; exact List.mem_cons_of_mem _ hg)
    next => exact h.steady q hq
  · rw [if_neg (hsame ▸ hid)]
  · rw [← hsame] at ht
    refine ht.relay htracks hr h.calm.toSane (fun q => h.seat) (by rw [hs]; rfl)
      (Nat.le_of_eq hnumber) (hnumber.symm ▸ hget) (fun x hx => absurd hx List.not_mem_nil)
      (fun q hq hid => .inl (by rw [hself hq (hid.trans hsame)])) fun q hq hid => ?_
    obtain rfl := hself hq (hid.trans hsame)
    rw [if_pos rfl, hnumber, Flow.handle_self, Nat.max_eq_right (Nat.le_succ _)]
    exact hlater

theorem post (who : Id) (hregular : f.Regular (.post who)) :
    (f.effect (.post who)).Told servers config := by
  obtain ⟨hrelayable, hspace⟩ := hregular
  cases hfind : f.members.find? (·.id = who) with
  | none =>
    simp only [effect, hfind]
    exact h
  | some p =>
    have hp : p ∈ f.members := List.mem_of_find?_eq_some hfind
    have hid : p.id = who := by simpa using List.find?_some hfind
    cases hup : p.upstream with
    | nil =>
      simp only [effect, hfind, hup]
      exact h
    | cons frame rest =>
      simp only [effect, hfind, hup] at hspace ⊢
      exact h.submit hp hup (hrelayable p hp hid frame (by rw [hup]; rfl)) hspace

/-- What a move among the servers leads to: nothing, or the next line on some connection is relayed. -/
theorem move {mv : Mesh.Move} (hregular : f.Regular (.move mv)) :
    (f.effect (.move mv)).Told servers config := by
  obtain ⟨hallowed, hspace⟩ := hregular
  have hsane : (f.mesh.effect mv).Sane := h.calm.toSane.effect hallowed.admits
  have hlines (u w : Id) (msg : Message) (hmsg : msg ∈ chats (f.mesh.channel u w)) :
      msg.sequence?.isSome ∧ msg.Fits := by
    obtain ⟨-, -, line, -, hline, -, hlt⟩ := h.line_of_chat hmsg
    obtain ⟨-, hseq, hfits⟩ := Message.of_line? hline
    exact ⟨by rw [hseq]; rfl, hfits hlt⟩
  have hmembers : f.members = f.members.map id := (List.map_id _).symm
  rcases h.calm.effect_chat h.seated h.honest h.near hlines hallowed hspace with
    hhush | ⟨u, v, msg, rest, k, hadj, hhead, hk, hrelays⟩
  · refine h.spare ⟨hhush.still, hhush.seat, hmembers, fun _ _ => rfl⟩ hsane
      (hhush.honest h.honest) hhush.chats h.steady fun b => ⟨fun u => hhush.last u b, fun u v => ?_,
        fun _ _ _ => rfl, fun _ _ _ => rfl, fun p _ _ => ?_⟩
    · exact congrArg _ (hhush.chats u v)
    · have hinbox : (f.effect (.move mv)).inbox p = f.inbox p := by
        rw [inbox, inbox, chats_append, chats_append]
        exact congrArg (fun l => p.client.received ++ (chats p.downstream ++ l).filterMap _)
          (hhush.letters p.home p.link)
      exact congrArg _ hinbox
  · have hmsg : msg ∈ chats (f.mesh.channel u v) := by
      rw [hhead]
      exact List.mem_cons_self
    obtain ⟨lines, heard, line, ht, hline, hget, -⟩ := h.line_of_chat hmsg
    obtain ⟨hsender, hseq, -⟩ := Message.of_line? hline
    obtain rfl : line.sequence = k := Option.some.inj (hseq.symm.trans hk)
    have htracks : f.Tracks (f.effect (.move mv)) id :=
      ⟨hrelays.still, hrelays.seat, hmembers, fun _ _ => rfl⟩
    have hr : f.Relays (f.effect (.move mv)) id v msg line :=
      ⟨hrelays, hline, fun _ _ => rfl, fun _ _ => rfl, fun _ _ => rfl⟩
    have hcopy : f.copies msg.sender u v =
        ⟨line.sequence, msg.path⟩ :: rest.filterMap (Copy.of? msg.sender) := by
      rw [copies, hhead, List.filterMap_cons]
      simp [Copy.of?, hseq]
    obtain ⟨hbefore, hpath⟩ := ht.sound.known u v hadj _ (by rw [hcopy]; exact List.mem_cons_self)
    have hhome (p : Member) (hp : p ∈ f.members) (hid : p.id = msg.sender) :
        line.sequence < heard p.home := Nat.lt_of_lt_of_le hbefore (ht.first p hp hid u)
    refine h.relay htracks hr hsane h.steady (fun _ _ _ => rfl) ⟨lines, _,
      ht.relay htracks hr h.calm.toSane (fun p => h.seat)
        (h.calm.toSane.isSome_of_linked (h.calm.toSane.adj_iff.1 hadj))
        (ht.sound.number_le hadj hcopy) hget hpath (fun p hp hid => .inr (hhome p hp hid))
        fun p hp hid => ?_⟩
    rw [Flow.handle_of_lt (hhome p hp hid)]
    exact ht.outgoing p hp hid

theorem effect {e : Event} (hregular : f.Regular e) : (f.effect e).Told servers config := by
  cases e with
  | say who text => exact h.say who text hregular
  | flush who => exact h.flush who
  | post who => exact h.post who hregular
  | hear who => exact h.hear who
  | move mv => exact h.move hregular

/-- The servers empty their queues: frames get onto the connections in the order in which they
waited. -/
theorem settle : f.settle.Told servers config := by
  obtain ⟨m', hhush, hgathers⟩ := h.calm.settles
  have hchats (u v : Id) : chats (f.mesh.settle.1.channel u v) = chats (f.mesh.channel u v) := by
    rw [hgathers.channel, hhush.chats]
  have hkeeps := hhush.toKeeps.trans hgathers.toKeeps
  have htracks : f.Tracks f.settle (·.receive f.mesh.settle.2.sent) :=
    ⟨hkeeps.still, hkeeps.seat, rfl, fun _ _ => rfl⟩
  refine h.spare htracks h.calm.toSane.settle.sane ?_ hchats ?_ fun b =>
    ⟨fun u => hkeeps.last u b, fun u v => congrArg _ (hchats u v), fun _ _ _ => rfl,
      fun _ _ _ => rfl, fun p _ _ => ?_⟩
  · intro u v g hg
    have hg : g ∈ f.mesh.settle.1.channel u v := hg
    rw [hgathers.channel] at hg
    exact hhush.honest h.honest u v g hg
  · intro p hp
    have hsilent : p.Hush (p.receive f.mesh.settle.2.sent) := ⟨rfl, rfl, rfl, rfl⟩
    exact hsilent.steady (h.steady p hp) (h.steady p hp).own (h.steady p hp).outgoing
  · have hletters : chats (Mesh.sentOver f.mesh.settle.2.sent p.home p.link ++
        f.mesh.settle.1.letters p.home p.link) = chats (f.mesh.letters p.home p.link) := by
      rw [← hgathers.letters, hhush.letters]
    have hinbox : f.settle.inbox (p.receive f.mesh.settle.2.sent) = f.inbox p := by
      show p.client.received ++ (chats ((p.downstream ++ Mesh.sentOver f.mesh.settle.2.sent p.home
        p.link) ++ f.mesh.settle.1.letters p.home p.link)).filterMap _ = _
      rw [List.append_assoc, chats_append, hletters, ← chats_append]
      rfl
    rw [hinbox]

theorem next {e : Event} (hregular : f.Regular e) : (f.next e).Told servers config :=
  (h.effect hregular).settle

end Told

end Events

end Forum

end RelayMesh
