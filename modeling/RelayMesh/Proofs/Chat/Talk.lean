import RelayMesh.Proofs.Chat.Flow
import RelayMesh.Proofs.Chat.Forum

namespace RelayMesh

/-- The chat line in a message. -/
def Message.line? (m : Message) : Option ChatLine :=
  match m.content with
  | .chat sequence text => some ⟨m.sender, sequence, text⟩
  | _ => none

/-- The message in which a client sends a line. -/
def ChatLine.message (l : ChatLine) : Message := .new l.sender (.chat l.sequence l.text)

namespace Message

variable {m : Message} {l : ChatLine} {v x : Id}

@[simp] theorem line?_appendToPath (m : Message) (id : Id) : (m.appendToPath id).line? = m.line? := by
  simp [line?]

@[simp] theorem sequence?_appendToPath (m : Message) (id : Id) :
    (m.appendToPath id).sequence? = m.sequence? := by
  simp [sequence?]

theorem of_line? (h : m.line? = some l) : l.sender = m.sender ∧ m.sequence? = some l.sequence ∧
    (l.sequence < UInt64.size → m.Fits) := by
  unfold line? at h
  split at h
  next hc =>
    obtain rfl := Option.some.inj h
    exact ⟨rfl, by rw [sequence?, hc], fun hlt => by rwa [Fits, hc]⟩
  next => cases h

theorem mem_appendToPath (h : x ∈ (m.appendToPath v).path) : x = v ∨ x ∈ m.path := by
  unfold appendToPath at h
  split at h
  · rcases List.mem_append.1 h with h | h
    · exact .inr h
    · exact .inl (List.mem_singleton.1 h)
  · exact .inr h

end Message

/-- A message with a line of `b`, as a copy on its way. -/
def Copy.of? (b : Id) (m : Message) : Option Copy :=
  if m.sender = b then m.sequence?.map (⟨·, m.path⟩) else none

theorem Copy.filterMap_of? (b : Id) (msgs : List Message) :
    msgs.filterMap (Copy.of? b) = (msgs.filter (·.sender = b)).filterMap (Copy.of? b) := by
  induction msgs with
  | nil => rfl
  | cons msg msgs ih =>
    by_cases hb : msg.sender = b
    · rw [List.filter_cons_of_pos (by simpa using hb), List.filterMap_cons, List.filterMap_cons, ih]
    · rw [List.filter_cons_of_neg (by simpa using hb), ← ih, List.filterMap_cons]
      simp [Copy.of?, hb]

namespace Member

/-- What the client has sent and its server has not got yet. -/
def outgoing (p : Member) : List Frame := p.upstream ++ p.client.queue.elim [] (·.frames)

theorem getElem?_lines {p : Member} {k : Nat} {line : ChatLine} (h : p.lines[k]? = some line) :
    line.sequence = k ∧ line.sender = p.id := by
  simp only [lines, List.getElem?_map, List.getElem?_zipIdx, Option.map_eq_some_iff] at h
  obtain ⟨⟨text, n⟩, ⟨text', -, heq⟩, rfl⟩ := h
  cases heq
  exact ⟨Nat.zero_add k, rfl⟩

end Member

namespace Forum

/-- The lines that the client has got or will get from what its server has given it. -/
def inbox (f : Forum) (p : Member) : List ChatLine :=
  p.client.received ++
    (chats (p.downstream ++ f.mesh.letters p.home p.link)).filterMap Message.line?

/-- The copies of lines of `b` on their way from `u` to `v`. -/
def copies (f : Forum) (b u v : Id) : List Copy :=
  (chats (f.mesh.channel u v)).filterMap (Copy.of? b)

/-- Where the lines of `b` are. The server `u` has handled the first `heard u` of them. -/
structure Talk (f : Forum) (b : Id) (lines : List ChatLine) (heard : Id → Nat) : Prop where
  voice : ∀ p ∈ f.members, p.id = b → p.lines = lines
  silent : (∀ p ∈ f.members, p.id ≠ b) → lines = []
  bound : ∀ u, heard u ≤ lines.length
  servers : ∀ u, heard u ≠ 0 → (f.mesh.station? u).isSome
  /-- The server of `b` handles a line before any other server. -/
  first : ∀ p ∈ f.members, p.id = b → ∀ u, heard u ≤ heard p.home
  sound : Flow.Sound f.mesh.graph.Adj heard (f.copies b)
  texts : ∀ u v, ∀ msg ∈ chats (f.mesh.channel u v), msg.sender = b →
    ∃ line, msg.line? = some line ∧ lines[line.sequence]? = some line
  /-- A server with clients that listen to `b` has recorded the last line that it has handled. -/
  last : ∀ u c link, f.mesh.Seat u c link → c ≠ b →
    f.mesh.last u b = if heard u = 0 then none else some (heard u - 1)
  inbox : ∀ p ∈ f.members, p.id ≠ b →
    (f.inbox p).filter (·.sender = b) = lines.take (heard p.home)
  outgoing : ∀ p ∈ f.members, p.id = b →
    p.outgoing.map Frame.chat? = (lines.drop (heard p.home)).map fun line => some line.message

/-- The servers keep their connections and their clients, and the clients stay where they are. -/
structure Tracks (f f' : Forum) (change : Member → Member) : Prop where
  still : f.mesh.Still f'.mesh
  seat : ∀ u c link, f'.mesh.Seat u c link ↔ f.mesh.Seat u c link
  members : f'.members = f.members.map change
  stays : ∀ p ∈ f.members, (change p).seat = p.seat

/-- Nothing has happened to the lines of `b`, but that they have come nearer to clients. -/
structure Spares (f f' : Forum) (change : Member → Member) (b : Id) : Prop where
  last : ∀ u, f'.mesh.last u b = f.mesh.last u b
  chats : ∀ u v, (chats (f'.mesh.channel u v)).filter (·.sender = b) =
    (chats (f.mesh.channel u v)).filter (·.sender = b)
  said : ∀ p ∈ f.members, p.id = b → (change p).said = p.said
  outgoing : ∀ p ∈ f.members, p.id = b → (change p).outgoing = p.outgoing
  inbox : ∀ p ∈ f.members, p.id ≠ b → (f'.inbox (change p)).filter (·.sender = b) =
    (f.inbox p).filter (·.sender = b)

/-- The server `v` has relayed the line `line`, which has come to it in `msg`. -/
structure Relays (f f' : Forum) (change : Member → Member) (v : Id) (msg : Message)
    (line : ChatLine) : Prop where
  relays : f.mesh.Relays f'.mesh v msg line.sequence
  line : msg.line? = some line
  said : ∀ p ∈ f.members, (change p).said = p.said
  received : ∀ p ∈ f.members, (change p).client.received = p.client.received
  downstream : ∀ p ∈ f.members, (change p).downstream = p.downstream

variable {f f' : Forum} {change : Member → Member} {b u v : Id} {lines : List ChatLine}
  {heard : Id → Nat} {p p' : Member} {msg : Message} {line : ChatLine}

theorem lines_eq {q : Member} (hid : q.id = p.id) (hsaid : q.said = p.said) : q.lines = p.lines := by
  rw [Member.lines, Member.lines, hid, hsaid]

namespace Tracks

variable (h : f.Tracks f' change)

include h

theorem id (hp : p ∈ f.members) : (change p).id = p.id := congrArg (·.2.1) (h.stays p hp)

theorem home (hp : p ∈ f.members) : (change p).home = p.home := congrArg (·.1) (h.stays p hp)

theorem link (hp : p ∈ f.members) : (change p).link = p.link := congrArg (·.2.2) (h.stays p hp)

theorem forall_members {P : Member → Prop} (hall : ∀ p ∈ f.members, P (change p)) :
    ∀ p ∈ f'.members, P p := by
  rw [h.members]
  exact List.forall_mem_map.2 hall

theorem mem (hp : p ∈ f.members) : change p ∈ f'.members := by
  rw [h.members]
  exact List.mem_map_of_mem hp

theorem seats : f'.members.map Member.seat = f.members.map Member.seat := by
  rw [h.members, List.map_map]
  exact List.map_congr_left h.stays

/-- Nobody's lines come from where they did not come from before. -/
theorem silent (hnone : ∀ p ∈ f'.members, p.id ≠ b) : ∀ p ∈ f.members, p.id ≠ b :=
  fun _ hp hid => hnone _ (h.mem hp) ((h.id hp).trans hid)

end Tracks

theorem Talk.spare (h : f.Talk b lines heard) (ht : f.Tracks f' change)
    (hs : f.Spares f' change b) : f'.Talk b lines heard where
  voice := ht.forall_members fun p hp hid => by
    rw [ht.id hp] at hid
    rw [lines_eq (ht.id hp) (hs.said p hp hid)]
    exact h.voice p hp hid
  silent hnone := h.silent (ht.silent hnone)
  bound := h.bound
  servers u hu := ht.still.isSome.2 (h.servers u hu)
  first := ht.forall_members fun p hp hid u => by
    rw [ht.id hp] at hid
    rw [ht.home hp]
    exact h.first p hp hid u
  sound := by
    have hcopies : f'.copies b = f.copies b := by
      funext u v
      rw [copies, copies, Copy.filterMap_of?, hs.chats, ← Copy.filterMap_of?]
    rw [ht.still.graph, hcopies]
    exact h.sound
  texts u v msg hmsg hb := by
    have hmem : msg ∈ (chats (f'.mesh.channel u v)).filter (·.sender = b) :=
      List.mem_filter.2 ⟨hmsg, by simpa using hb⟩
    rw [hs.chats] at hmem
    exact h.texts u v msg (List.mem_filter.1 hmem).1 hb
  last u c link hc hcb := by
    rw [hs.last]
    exact h.last u c link ((ht.seat u c link).1 hc) hcb
  inbox := ht.forall_members fun p hp hid => by
    rw [ht.id hp] at hid
    rw [hs.inbox p hp hid, ht.home hp]
    exact h.inbox p hp hid
  outgoing := ht.forall_members fun p hp hid => by
    rw [ht.id hp] at hid
    rw [hs.outgoing p hp hid, ht.home hp]
    exact h.outgoing p hp hid

/-- The oldest frame of `b` is of the next line that its server has not handled. -/
theorem Talk.next (h : f.Talk b lines heard) (hp : p ∈ f.members) (hid : p.id = b) {frame : Frame}
    {rest : List Frame} (hout : p.outgoing = frame :: rest) : ∃ line,
      lines[heard p.home]? = some line ∧ line.sequence = heard p.home ∧ line.sender = b ∧
        frame.chat? = some line.message ∧
          rest.map Frame.chat? = (lines.drop (heard p.home + 1)).map fun line => some line.message := by
  have hsent := h.outgoing p hp hid
  rw [hout, List.map_cons] at hsent
  cases hdrop : lines.drop (heard p.home) with
  | nil =>
    rw [hdrop] at hsent
    cases hsent
  | cons line later =>
    rw [hdrop, List.map_cons, List.cons.injEq] at hsent
    have hget : lines[heard p.home]? = some line := by
      have hhead : (lines.drop (heard p.home))[0]? = some line := by rw [hdrop]; rfl
      rwa [List.getElem?_drop, Nat.add_zero] at hhead
    obtain ⟨hnumber, hsender⟩ := Member.getElem?_lines ((h.voice p hp hid).symm ▸ hget)
    refine ⟨line, hget, hnumber, hsender.trans hid, hsent.1, ?_⟩
    rw [← List.tail_drop, hdrop]
    exact hsent.2

/-- Only a client that is there has lines. -/
theorem Talk.exists_voice (h : f.Talk b lines heard) (hne : lines ≠ []) :
    ∃ p ∈ f.members, p.id = b := by
  by_contra hnone
  exact hne (h.silent fun p hp hid => hnone ⟨p, hp, hid⟩)

/-- A client numbers its lines by their places. -/
theorem Talk.length_le (h : f.Talk b lines heard) {n : Nat}
    (hfits : ∀ p ∈ f.members, p.said.length ≤ n) : lines.length ≤ n := by
  by_cases hne : lines = []
  · rw [hne]
    exact Nat.zero_le n
  · obtain ⟨p, hp, hid⟩ := h.exists_voice hne
    rw [← h.voice p hp hid, Member.lines, List.length_map, List.length_zipIdx]
    exact hfits p hp

/-- A client has got on no path, which lead through servers only. -/
theorem Talk.notMem_path (h : f.Talk b lines heard) (hsane : f.mesh.Sane) {k : Nat} {path : List Id}
    (hpath : ∀ x ∈ path, k < heard x) {c : Id} {link : LinkId} (hc : f.mesh.Seat u c link) :
    c ∉ path := fun hmem =>
  hsane.not_isSome_of_seat hc (h.servers c (Nat.ne_of_gt (Nat.zero_lt_of_lt (hpath c hmem))))

/-- For a server with clients that listen, the line after those that it has handled is new. -/
theorem Talk.isNews_iff (h : f.Talk b lines heard) {k : Nat} (hk : k ≤ heard v) {c : Id}
    {link : LinkId} (hc : f.mesh.Seat v c link) (hcb : c ≠ b) :
    f.mesh.isNews v b k = true ↔ k = heard v := by
  rw [Mesh.isNews, h.last v c link hc hcb]
  split
  · simp; omega
  · simp; omega

namespace Relays

variable (h : f.Relays f' change v msg line)

include h

/-- A client gets the line if it is new to its server, unless it is its own. -/
theorem inbox (ht : f.Tracks f' change) (hp : p ∈ f.members)
    (hseat : f.mesh.Seat p.home p.id p.link) :
    f'.inbox (change p) = f.inbox p ++ if p.home = v ∧
      f.mesh.isNews v msg.sender line.sequence = true ∧ p.id ≠ msg.sender ∧ p.id ∉ msg.path
        then [line] else [] := by
  have hletters := h.relays.letters p.home p.id p.link hseat
  rw [Forum.inbox, Forum.inbox, h.received p hp, h.downstream p hp, ht.home hp, ht.link hp,
    chats_append, chats_append, hletters, List.append_assoc, ← List.append_assoc,
    List.filterMap_append]
  split <;> simp [h.line]

/-- The lines of others stay where they are. -/
theorem spares (ht : f.Tracks f' change) (hb : b ≠ msg.sender)
    (hout : ∀ p ∈ f.members, p.id = b → (change p).outgoing = p.outgoing)
    (hseats : ∀ p ∈ f.members, f.mesh.Seat p.home p.id p.link) : f.Spares f' change b where
  last u := h.relays.last u b (.inr (.inl hb))
  chats u w := by
    obtain ⟨gone, kept, n, hbefore, hafter, hgone, -⟩ := h.relays.copies u w
    have hleft : gone.filter (·.sender = b) = [] := List.filter_eq_nil_iff.2 fun c hc => by
      simpa [(hgone c hc).2] using hb.symm
    have hnew : (List.replicate n (msg.appendToPath v)).filter (·.sender = b) = [] :=
      List.filter_eq_nil_iff.2 fun c hc => by
        simpa [(List.mem_replicate.1 hc).2] using hb.symm
    rw [hbefore, hafter, List.filter_append, List.filter_append, hleft, hnew, List.append_nil,
      List.nil_append]
  said p hp _ := h.said p hp
  outgoing := hout
  inbox p hp _ := by
    have hline : line.sender ≠ b := by
      rw [(Message.of_line? h.line).1]
      exact hb.symm
    rw [h.inbox ht hp (hseats p hp), List.filter_append]
    split
    · simp [hline]
    · simp

/-- A line that a server relays is on its way to the neighbours of the server once it has handled the
line. -/
theorem sound (htalk : f.Talk msg.sender lines heard) (hsane : f.mesh.Sane)
    (hseats : ∀ p ∈ f.members, f.mesh.Seat p.home p.id p.link) (hk : line.sequence ≤ heard v)
    (hne : lines ≠ []) (hpath : ∀ x ∈ msg.path, line.sequence < heard x) :
    Flow.Sound f.mesh.graph.Adj (Flow.handle heard v line.sequence) (f'.copies msg.sender) := by
  obtain ⟨-, hseq, -⟩ := Message.of_line? h.line
  have hcopied : ∀ x ∈ (msg.appendToPath v).path,
      line.sequence < Flow.handle heard v line.sequence x := by
    intro x hx
    rcases Message.mem_appendToPath hx with rfl | hx
    · exact Flow.lt_handle_self _ _ _
    · exact Nat.lt_of_lt_of_le (hpath x hx) (Flow.le_handle _ _ _ _)
  refine htalk.sound.relay hk hcopied fun x w hxw => ?_
  obtain ⟨gone, kept, n, hbefore, hafter, hgone, hnew, hall⟩ := h.relays.copies x w
  refine ⟨gone.filterMap (Copy.of? msg.sender), kept.filterMap (Copy.of? msg.sender), n, ?_, ?_,
    fun c hc => ?_, fun hn => (hnew hn).1, fun hx hw => hall hx hxw ?_ hw⟩
  · rw [copies, hbefore, List.filterMap_append]
  · rw [copies, hafter, List.filterMap_append]
    congr 1
    rw [List.filterMap_replicate_of_some]
    simp [Copy.of?, hseq]
  · obtain ⟨d, hd, hcopy⟩ := List.mem_filterMap.1 hc
    obtain ⟨hw, rfl⟩ := hgone d hd
    simp only [Copy.of?, if_true, hseq, Option.map_some, Option.some.injEq] at hcopy
    exact ⟨hw, by rw [← hcopy]⟩
  · -- the sender is a client, and the neighbour is a server
    rintro rfl
    obtain ⟨p, hp, hid⟩ := htalk.exists_voice hne
    exact hsane.not_isSome_of_seat (hid ▸ hseats p hp)
      (hsane.isSome_of_linked (hsane.adj_iff.1 hxw))

theorem texts (htalk : f.Talk msg.sender lines heard) (hline : lines[line.sequence]? = some line)
    (u w : Id) {m : Message} (hm : m ∈ chats (f'.mesh.channel u w)) (hb : m.sender = msg.sender) :
    ∃ line, m.line? = some line ∧ lines[line.sequence]? = some line := by
  obtain ⟨gone, kept, n, hbefore, hafter, -⟩ := h.relays.copies u w
  rw [hafter] at hm
  rcases List.mem_append.1 hm with hold | hcopy
  · exact htalk.texts u w m (by rw [hbefore]; exact List.mem_append_right _ hold) hb
  · rw [(List.mem_replicate.1 hcopy).2, Message.line?_appendToPath]
    exact ⟨line, h.line, hline⟩

/-- The server records the line if it is the next one. -/
theorem last (htalk : f.Talk msg.sender lines heard) (hsane : f.mesh.Sane)
    (hk : line.sequence ≤ heard v) (hpath : ∀ x ∈ msg.path, line.sequence < heard x) {c : Id}
    {link : LinkId} (hc : f.mesh.Seat u c link) (hcb : c ≠ msg.sender) :
    f'.mesh.last u msg.sender = if Flow.handle heard v line.sequence u = 0 then none
      else some (Flow.handle heard v line.sequence u - 1) := by
  have hlast := htalk.last u c link hc hcb
  by_cases hu : u = v
  · subst hu
    rw [Flow.handle_self]
    cases hn : f.mesh.isNews u msg.sender line.sequence with
    | true =>
      have hkv := (htalk.isNews_iff hk hc hcb).1 hn
      rw [h.relays.recorded hn ⟨c, link, hc, hcb, htalk.notMem_path hsane hpath hc⟩, hlast, hkv]
      split
      · simp_all
      · simp
    | false =>
      have hkv : line.sequence ≠ heard u := fun hkv => by
        rw [(htalk.isNews_iff hk hc hcb).2 hkv] at hn
        cases hn
      rw [h.relays.last u _ (.inr (.inr hn)), hlast, Nat.max_eq_left (by omega)]
  · rw [h.relays.last u _ (.inl hu), hlast, Flow.handle_of_ne hu]

/-- The clients of the server get the line if it is the next one. -/
theorem filter_inbox (htalk : f.Talk msg.sender lines heard) (ht : f.Tracks f' change)
    (hsane : f.mesh.Sane) (hk : line.sequence ≤ heard v)
    (hline : lines[line.sequence]? = some line)
    (hpath : ∀ x ∈ msg.path, line.sequence < heard x) (hp : p ∈ f.members)
    (hseat : f.mesh.Seat p.home p.id p.link) (hid : p.id ≠ msg.sender) :
    (f'.inbox (change p)).filter (·.sender = msg.sender) =
      lines.take (Flow.handle heard v line.sequence p.home) := by
  have hsender := (Message.of_line? h.line).1
  rw [h.inbox ht hp hseat, List.filter_append, htalk.inbox p hp hid]
  by_cases hhome : p.home = v
  · rw [hhome] at hseat ⊢
    rw [Flow.handle_self]
    by_cases hkv : line.sequence = heard v
    · rw [if_pos ⟨rfl, (htalk.isNews_iff hk hseat hid).2 hkv, hid,
        htalk.notMem_path hsane hpath hseat⟩, ← hkv, Nat.max_eq_right (Nat.le_succ _),
        List.take_add_one, hline]
      simp [hsender]
    · rw [if_neg fun hall => hkv ((htalk.isNews_iff hk hseat hid).1 hall.2.1),
        Nat.max_eq_left (by omega)]
      simp
  · rw [if_neg fun hall => hhome hall.1, Flow.handle_of_ne hhome]
    simp

end Relays

/-- A server has relayed a line: the next one that it had not handled, or an old one. -/
theorem Talk.relay (h : f.Talk msg.sender lines heard) (ht : f.Tracks f' change)
    (hr : f.Relays f' change v msg line) (hsane : f.mesh.Sane)
    (hseats : ∀ p ∈ f.members, f.mesh.Seat p.home p.id p.link) (hv : (f.mesh.station? v).isSome)
    (hk : line.sequence ≤ heard v) (hline : lines[line.sequence]? = some line)
    (hpath : ∀ x ∈ msg.path, line.sequence < heard x)
    (hfirst : ∀ p ∈ f.members, p.id = msg.sender → p.home = v ∨ line.sequence < heard p.home)
    (hout : ∀ p ∈ f.members, p.id = msg.sender → (change p).outgoing.map Frame.chat? =
      (lines.drop (Flow.handle heard v line.sequence p.home)).map fun line => some line.message) :
    f'.Talk msg.sender lines (Flow.handle heard v line.sequence) where
  voice := ht.forall_members fun p hp hid => by
    rw [ht.id hp] at hid
    rw [lines_eq (ht.id hp) (hr.said p hp)]
    exact h.voice p hp hid
  silent hnone := h.silent (ht.silent hnone)
  bound u := Flow.handle_le (h.bound u) fun _ => (List.getElem?_eq_some_iff.1 hline).1
  servers u hu := by
    rw [ht.still.isSome]
    by_cases huv : u = v
    · rw [huv]
      exact hv
    · rw [Flow.handle_of_ne huv] at hu
      exact h.servers u hu
  first := ht.forall_members fun p hp hid u => by
    rw [ht.id hp] at hid
    rw [ht.home hp]
    refine Flow.handle_le (Nat.le_trans (h.first p hp hid u) (Flow.le_handle _ _ _ _)) fun _ => ?_
    rcases hfirst p hp hid with hhome | hbefore
    · rw [hhome]
      exact Flow.lt_handle_self _ _ _
    · exact Nat.lt_of_lt_of_le hbefore (Flow.le_handle _ _ _ _)
  sound := by
    rw [ht.still.graph]
    exact hr.sound h hsane hseats hk (List.ne_nil_of_mem (List.mem_of_getElem? hline)) hpath
  texts x w _ := hr.texts h hline x w
  last u c link hc hcb := hr.last h hsane hk hpath ((ht.seat u c link).1 hc) hcb
  inbox := ht.forall_members fun p hp hid => by
    rw [ht.id hp] at hid
    rw [ht.home hp]
    exact hr.filter_inbox h ht hsane hk hline hpath hp (hseats p hp) hid
  outgoing := ht.forall_members fun p hp hid => by
    rw [ht.id hp] at hid
    rw [ht.home hp]
    exact hout p hp hid

end Forum

end RelayMesh
