import RelayMesh.Proofs.Chat.Delivery
import RelayMesh.Proofs.Chat.Setup

namespace RelayMesh

namespace Mesh

variable {m : Mesh} {u c : Id} {link : LinkId}

theorem mem_seats : (u, c, link) ∈ m.seats ↔ m.Seat u c link := by
  constructor
  · intro h
    obtain ⟨⟨u', st⟩, hst, hmem⟩ := List.mem_flatMap.1 h
    obtain ⟨⟨c', r⟩, hr, heq⟩ := List.mem_map.1 hmem
    obtain ⟨rfl, rfl, rfl⟩ : u' = u ∧ c' = c ∧ r.link = link := by simpa using heq
    obtain ⟨hget, hclient⟩ := List.mem_filter.1 hr
    have hreach : r.reach = .client := by simpa [Route.isClient] using hclient
    refine ⟨st, m.stations.mem_toList_iff.1 hst, ?_⟩
    rw [← hreach]
    exact st.server.routes.entries.mem_toList_iff.1 hget
  · rintro ⟨st, hs, hget⟩
    refine List.mem_flatMap.2 ⟨(u, st), m.stations.mem_toList_iff.2 hs, ?_⟩
    exact List.mem_map.2 ⟨(c, ⟨.client, link⟩),
      List.mem_filter.2 ⟨st.server.routes.entries.mem_toList_iff.2 hget, rfl⟩, rfl⟩

end Mesh

namespace Forum

instance (f : Forum) : ∀ e, Decidable (f.Regular e)
  | .say who _ => inferInstanceAs (Decidable (∀ p ∈ f.members, p.id = who →
      p.client.nextSequence < UInt64.size))
  | .flush _ => .isTrue trivial
  | .hear _ => .isTrue trivial
  | .post who => inferInstanceAs (Decidable ((∀ p ∈ f.members, p.id = who →
      ∀ frame ∈ p.upstream.head?, f.mesh.Relayable p.home frame) ∧ _))
  | .move mv => inferInstanceAs (Decidable (f.mesh.Allows mv ∧ (f.mesh.effect mv).Spacious))

instance Obeys.decidable : ∀ (f : Forum) (events : List Event), Decidable (f.Obeys events)
  | _, [] => .isTrue trivial
  | f, e :: events =>
    have := Obeys.decidable (f.next e) events
    inferInstanceAs (Decidable (_ ∧ _))

instance (f : Forum) : Decidable f.AtRest := inferInstanceAs (Decidable (f.mesh.wire = [] ∧
  (∀ b ∈ f.mesh.stations.toList, ∀ q ∈ b.2.server.outbox.toList, q.2.frames = []) ∧
    ∀ p ∈ f.members, p.upstream = [] ∧ p.downstream = [] ∧ ∀ q ∈ p.client.queue, q.frames = []))

variable {f : Forum} {m : Mesh} {equip : Id → Equipment} {servers : List Id} {config : Config}
  {u v : Id} {p : Member} {link : LinkId}

theorem fresh_of_mem_start (hp : p ∈ (start m equip).members) :
    p.said = [] ∧ p.client.received = [] ∧ p.downstream = [] ∧ p.outgoing = [] ∧
      p.client.nextSequence = 0 ∧ p.client.listening = true := by
  obtain ⟨s, -, rfl⟩ := List.mem_map.1 hp
  exact ⟨rfl, rfl, rfl, rfl, rfl, rfl⟩

theorem talk_start (hmute : m.Mute) (b : Id) : (start m equip).Talk b [] fun _ => 0 where
  voice p hp _ := by
    rw [Member.lines, (fresh_of_mem_start hp).1]
    rfl
  silent _ := rfl
  bound _ := Nat.le_refl _
  servers _ h := absurd rfl h
  first _ _ _ _ := Nat.le_refl _
  sound := by
    have hcopies : (start m equip).copies b = fun _ _ => [] := by
      funext u v
      rw [copies, start, chats_plain (hmute.plain.channel u v)]
      rfl
    rw [hcopies]
    exact Flow.sound_nil _
  texts u v msg hmsg := by
    rw [start, chats_plain (hmute.plain.channel u v)] at hmsg
    exact absurd hmsg List.not_mem_nil
  last u _ _ _ _ := hmute.last u b
  inbox p hp _ := by
    obtain ⟨-, hreceived, hdown, -⟩ := fresh_of_mem_start hp
    rw [inbox, hreceived, hdown, List.nil_append, List.nil_append, start,
      chats_plain (hmute.plain.letters p.home p.link)]
    rfl
  outgoing p hp _ := by
    rw [(fresh_of_mem_start hp).2.2.2.1]
    rfl

/-- Before anybody has said anything, nobody has got anything. -/
theorem told_start (hcalm : m.Calm servers config) (hmute : m.Mute)
    (hconn : ∀ u ∈ servers, ∀ v ∈ servers, m.graph.Reachable u v)
    (hids : (m.seats.map (·.2.1)).Nodup) : (start m equip).Told servers config := by
  have hseats : (start m equip).members.map Member.seat = m.seats := by
    rw [start, List.map_map]
    exact List.map_id _
  exact {
    calm := hcalm
    connected := hconn
    seated := hmute.seated
    honest := fun u v f hf => (hmute.plain.channel u v f hf).honest
    near := fun u v hne => absurd (chats_plain (hmute.plain.channel u v)) hne
    distinct := by
      rw [← hseats, List.map_map] at hids
      exact hids
    seats := fun u c link => by
      rw [hseats]
      exact Mesh.mem_seats.symm
    steady := fun p hp => by
      obtain ⟨hsaid, hreceived, -, hout, hnext, hlistening⟩ := fresh_of_mem_start hp
      exact ⟨by rw [hsaid, hnext]; rfl, by rw [hsaid]; exact Nat.zero_le _, hlistening,
        by simp [hreceived], by simp [hout]⟩
    talks := fun b => ⟨[], fun _ => 0, talk_start hmute b⟩ }

theorem Told.play (h : f.Told servers config) {events : List Event} (he : f.Obeys events) :
    (f.play events).Told servers config := by
  induction events generalizing f with
  | nil => exact h
  | cons e events ih => exact ih (h.next he.1) he.2

section Rest

variable (h : f.AtRest)

include h

theorem AtRest.waiting {st : Station} (hs : f.mesh.station? u = some st) (link : LinkId) :
    st.server.outbox.waiting link = [] := by
  unfold Outbox.waiting
  cases hq : st.server.outbox.get? link with
  | none => rfl
  | some q =>
    exact h.2.1 (u, st) (f.mesh.stations.mem_toList_iff.2 hs) (link, q)
      (st.server.outbox.mem_toList_iff.2 hq)

theorem AtRest.letters (u : Id) (link : LinkId) : f.mesh.letters u link = [] := by
  unfold Mesh.letters
  cases hs : f.mesh.station? u with
  | none => rfl
  | some st => exact h.waiting hs link

theorem AtRest.channel (u v : Id) : f.mesh.channel u v = [] := by
  refine List.eq_nil_iff_forall_not_mem.2 fun frame hf => ?_
  rcases Mesh.mem_channel hf with ⟨t, ht, -⟩ | ⟨link, hf⟩
  · rw [h.1] at ht
    exact absurd ht List.not_mem_nil
  · rw [h.letters] at hf
    exact absurd hf List.not_mem_nil

theorem AtRest.inbox (hp : p ∈ f.members) : f.inbox p = p.client.received := by
  rw [Forum.inbox, (h.2.2 p hp).2.1, h.letters]
  exact List.append_nil _

theorem AtRest.outgoing (hp : p ∈ f.members) : p.outgoing = [] := by
  obtain ⟨hup, -, hqueue⟩ := h.2.2 p hp
  rw [Member.outgoing, hup]
  cases hq : p.client.queue with
  | none => rfl
  | some q => exact hqueue q hq

/-- All lines of a client have come to every other one. -/
theorem Told.received (ht : f.Told servers config) {a b : Member} (ha : a ∈ f.members)
    (hb : b ∈ f.members) (hne : a.id ≠ b.id) :
    a.client.received.filter (·.sender = b.id) = b.lines := by
  obtain ⟨lines, heard, talk⟩ := ht.talks b.id
  have home {p : Member} (hp : p ∈ f.members) : p.home ∈ servers := by
    obtain ⟨st, hs, -⟩ := ht.seat hp
    exact (ht.calm.members p.home).1 (by rw [hs]; rfl)
  have hsent : lines.length ≤ heard b.home := by
    have hleft := talk.outgoing b hb rfl
    rw [h.outgoing hb] at hleft
    exact List.drop_eq_nil_iff.1 (List.map_eq_nil_iff.1 hleft.symm)
  have hcame : heard b.home ≤ heard a.home := by
    refine talk.sound.heard_le (fun u v _ => ?_) (ht.connected _ (home hb) _ (home ha))
    rw [copies, h.channel]
    rfl
  have hgot := talk.inbox a ha hne
  rw [h.inbox ha, List.take_of_length_le (Nat.le_trans hsent hcame)] at hgot
  rw [hgot, talk.voice b hb rfl]

/-- A client has got lines of other clients only. -/
theorem Told.sender (ht : f.Told servers config) {a : Member} (ha : a ∈ f.members) {line : ChatLine}
    (hline : line ∈ a.client.received) : ∃ b ∈ f.members, b.id ≠ a.id ∧ line.sender = b.id := by
  have hown := (ht.steady a ha).own line hline
  by_contra hnone
  obtain ⟨lines, heard, talk⟩ := ht.talks line.sender
  have hsilent : lines = [] := talk.silent fun p hp hid =>
    hnone ⟨p, hp, by rw [hid]; exact hown, hid.symm⟩
  have hgot := talk.inbox a ha hown.symm
  rw [h.inbox ha, hsilent, List.take_nil] at hgot
  have hmem : line ∈ a.client.received.filter (·.sender = line.sender) :=
    List.mem_filter.2 ⟨hline, by simp⟩
  rw [hgot] at hmem
  exact absurd hmem List.not_mem_nil

end Rest

/-- Servers are connected in any way, clients are attached to them, and then the clients talk. Whenever
no frame is on its way, a client has got from every other client just the lines that it has said, by
their numbers, and it has got nothing else. -/
theorem received_eq_lines (servers : List Id) (config : Config) (setup : List Mesh.Move)
    (equip : Id → Equipment) (events : List Event)
    (hsetup : (Mesh.new servers config [] false).Obeys Mesh.Prepares setup) :
    let m := (Mesh.new servers config [] false).play setup
    let f := (start m equip).play events
    (m.seats.map (·.2.1)).Nodup → (∀ u ∈ servers, ∀ v ∈ servers, m.graph.Reachable u v) →
      (start m equip).Obeys events → f.AtRest →
      ∀ a ∈ f.members, a.said.length = a.client.sentCount ∧
        (∀ b ∈ f.members, a.id ≠ b.id →
          a.client.received.filter (·.sender = b.id) = b.lines) ∧
        ∀ line ∈ a.client.received, ∃ b ∈ f.members, b.id ≠ a.id ∧ line.sender = b.id := by
  intro m f hids hconn hevents hrest a ha
  obtain ⟨hcalm, hmute⟩ := Mesh.prepared hsetup
  have htold : f.Told servers config := (told_start hcalm hmute hconn hids).play hevents
  exact ⟨(htold.steady a ha).count, fun b hb => htold.received hrest ha hb,
    fun line => htold.sender hrest ha⟩

/-- Three servers, each of which is connected to the others, and two clients. -/
def hall : List Mesh.Move :=
  [.join 1 2, .join 2 3, .join 3 1, .step (.at 1 (.client none {})), .step (.at 2 (.client none {}))]

/-- Three lines, each of which comes to the other client by way of server 3 first. -/
def chatter : List Event :=
  [.say 100 "hi", .say 100 "again", .say 200 "yes", .flush 100, .flush 200, .post 100, .post 100,
    .post 200] ++ [5, 5, 4, 1, 4, 2, 3, 2, 0, 1, 0, 0].map (.move ∘ .deliver) ++
    [.hear 100, .hear 200, .hear 200]

theorem received_eq_lines_hall :
    let m := (Mesh.new [1, 2, 3] {} [] false).play hall
    let f := (start m fun _ => ⟨1000, 4⟩).play chatter
    (Mesh.new [1, 2, 3] {} [] false).Obeys Mesh.Prepares hall ∧ (m.seats.map (·.2.1)).Nodup ∧
      (∀ u ∈ [1, 2, 3], ∀ v ∈ [1, 2, 3], m.graph.Reachable u v) ∧
      (start m fun _ => ⟨1000, 4⟩).Obeys chatter ∧ f.AtRest ∧
      f.members.map (·.said) = [["hi", "again"], ["yes"]] ∧
      ∀ a ∈ f.members, ∀ b ∈ f.members, a.id ≠ b.id →
        a.client.received.filter (·.sender = b.id) = b.lines := by
  intro m f
  have hsetup : (Mesh.new [1, 2, 3] {} [] false).Obeys Mesh.Prepares hall := by decide +kernel
  have hids : (m.seats.map (·.2.1)).Nodup := by decide +kernel
  have hlinked : m.Linked 1 2 ∧ m.Linked 3 1 := by decide +kernel
  have hfrom : ∀ u ∈ [1, 2, 3], m.graph.Reachable 1 u :=
    List.forall_mem_cons.2 ⟨.refl 1, List.forall_mem_cons.2
      ⟨(Mesh.graph_adj.2 ⟨by decide, .inl hlinked.1⟩).reachable, List.forall_mem_singleton.2
        (Mesh.graph_adj.2 ⟨by decide, .inr hlinked.2⟩).reachable⟩⟩
  have hconn : ∀ u ∈ [1, 2, 3], ∀ v ∈ [1, 2, 3], m.graph.Reachable u v :=
    fun u hu v hv => (hfrom u hu).symm.trans (hfrom v hv)
  have hevents : (start m fun _ => ⟨1000, 4⟩).Obeys chatter := by decide +kernel
  have hrest : f.AtRest := by decide +kernel
  have hreceived := received_eq_lines [1, 2, 3] {} hall (fun _ => ⟨1000, 4⟩) chatter hsetup hids hconn
    hevents hrest
  exact ⟨hsetup, hids, hconn, hevents, hrest, by decide +kernel, fun a ha => (hreceived a ha).2.1⟩

end Forum

end RelayMesh
