import RelayMesh.Election
import RelayMesh.Proofs.Overlay.Run

namespace RelayMesh

namespace Election

/-- The packet in which `u` tells `v` of the wave of `x`. -/
def token (u v x : Id) : Packet :=
  ⟨u, v, MessageType.electionToken, (Message.new u (.electionToken x)).appendToPath u⟩

/-- The packet in which `u` tells `v` that the wave of `z` has won. -/
def announcement (u v z : Id) : Packet :=
  ⟨u, v, MessageType.electionLeader, (Message.new u (.electionLeader z)).appendToPath u⟩

variable {T : Topology} {u v w x u' v' x' z : Id} {e : Election}

@[simp] theorem source_token : (token u v x).source = u := rfl

@[simp] theorem target_token : (token u v x).target = v := rfl

@[simp] theorem content_token : (token u v x).msg.content = .electionToken x := by simp [token, Message.new]

@[simp] theorem sender_token : (token u v x).msg.sender = u := by simp [token, Message.new]

@[simp] theorem source_announcement : (announcement u v z).source = u := rfl

@[simp] theorem target_announcement : (announcement u v z).target = v := rfl

@[simp] theorem content_announcement :
    (announcement u v z).msg.content = .electionLeader z := by simp [announcement, Message.new]

@[simp] theorem token_inj : token u v x = token u' v' x' ↔ u = u' ∧ v = v' ∧ x = x' := by
  refine ⟨fun h => ⟨congrArg Packet.source h, congrArg Packet.target h, ?_⟩, ?_⟩
  · simpa using congrArg (·.msg.content) h
  · rintro ⟨rfl, rfl, rfl⟩
    rfl

@[simp] theorem announcement_inj :
    announcement u v x = announcement u' v' x' ↔ u = u' ∧ v = v' ∧ x = x' := by
  refine ⟨fun h => ⟨congrArg Packet.source h, congrArg Packet.target h, ?_⟩, ?_⟩
  · simpa using congrArg (·.msg.content) h
  · rintro ⟨rfl, rfl, rfl⟩
    rfl

@[simp] theorem token_ne_announcement : token u v x ≠ announcement u' v' z := fun h => by
  simpa using congrArg (·.msg.content) h

@[simp] theorem announcement_ne_token : announcement u' v' z ≠ token u v x :=
  token_ne_announcement.symm

@[simp] theorem token_mem_map : token u v x ∈ (T.neighbours w).map (token w · z) ↔
    u = w ∧ T.Linked w v ∧ x = z := by
  simp only [List.mem_map, Topology.mem_neighbours, token_inj]
  constructor
  · rintro ⟨a, hl, rfl, rfl, rfl⟩
    exact ⟨rfl, hl, rfl⟩
  · rintro ⟨rfl, hl, rfl⟩
    exact ⟨v, hl, rfl, rfl, rfl⟩

@[simp] theorem announcement_mem_map :
    announcement u v x ∈ (T.neighbours w).map (announcement w · z) ↔
      u = w ∧ T.Linked w v ∧ x = z := by
  simp only [List.mem_map, Topology.mem_neighbours, announcement_inj]
  constructor
  · rintro ⟨a, hl, rfl, rfl, rfl⟩
    exact ⟨rfl, hl, rfl⟩
  · rintro ⟨rfl, hl, rfl⟩
    exact ⟨v, hl, rfl, rfl, rfl⟩

@[simp] theorem token_notMem_map : token u v x ∉ (T.neighbours w).map (announcement w · z) := by
  simp

@[simp] theorem announcement_notMem_map :
    announcement u v x ∉ (T.neighbours w).map (token w · z) := by
  simp

/-- The election on a graph where every server knows its number of neighbours. -/
def behaviour (T : Topology) : Behaviour Election Unit where
  command a _ e := e.start (T.degree a)
  receive a p e :=
    match p.msg.content with
    | .electionToken initiator => e.onToken p.msg.sender initiator (T.degree a)
    | .electionLeader initiator => e.onLeader initiator (T.degree a)
    | _ => (e, [])

/-- Nobody takes part in any wave. -/
def atRest : Overlay Election := { nodes := fun a => { own := a } }

theorem isOutbid_iff : e.isOutbid x = true ↔ ∃ c, e.candidate = some c ∧ c ≤ x := by
  unfold isOutbid
  cases e.candidate <;> simp

theorem isOutbid_of_candidate (h : e.candidate = some x) : e.isOutbid x = true :=
  isOutbid_iff.2 ⟨x, h, UInt32.le_refl x⟩

theorem isOutbid_trans (h : e.isOutbid x = true) (hle : x ≤ z) : e.isOutbid z = true := by
  obtain ⟨c, hc, hcx⟩ := isOutbid_iff.1 h
  exact isOutbid_iff.2 ⟨c, hc, UInt32.le_trans hcx hle⟩

theorem lt_of_not_isOutbid {c : Id} (h : e.isOutbid x = false) (hc : e.candidate = some c) :
    x < c := by
  rw [← UInt32.not_le]
  intro hle
  simp [isOutbid_iff.2 ⟨c, hc, hle⟩] at h

/-- What server `w` does on its own or on a packet that it hears, and the packets that it sends. -/
inductive Turn (T : Topology) (w : Id) (e : Election) :
    Option Packet → Election → List Packet → Prop
  | idle (h : e.winner ≠ none ∨ e.isOutbid w = true) : Turn T w e none e []
  | start (hw : e.winner = none) (ho : e.isOutbid w = false) :
      Turn T w e none
        { e with status := .initiator, candidate := some w, parent := none, tokenEchoes := 0 }
        ((T.neighbours w).map (token w · w))
  | pass (u x c : Id) (hc : e.candidate = some c) (hlt : c < x) : Turn T w e (some (token u w x)) e []
  | join (u x : Id) (ho : e.isOutbid x = false) (hx : x ≠ w) :
      Turn T w e (some (token u w x))
        { e with candidate := some x, parent := some u, tokenEchoes := 1 }
        (((T.neighbours w).filter (· ≠ u)).map (token w · x) ++
          if T.degree w = 1 then [token w u x] else [])
  | count (u x : Id) (hc : e.candidate = some x) (hd : e.tokenEchoes + 1 ≠ T.degree w) :
      Turn T w e (some (token u w x)) { e with tokenEchoes := e.tokenEchoes + 1 } []
  | echo (u x v : Id) (hc : e.candidate = some x) (hd : e.tokenEchoes + 1 = T.degree w) (hx : x ≠ w)
      (hp : e.parent = some v) :
      Turn T w e (some (token u w x)) { e with tokenEchoes := e.tokenEchoes + 1 } [token w v x]
  | announce (u : Id) (hc : e.candidate = some w) (hd : e.tokenEchoes + 1 = T.degree w) :
      Turn T w e (some (token u w w)) { e with tokenEchoes := e.tokenEchoes + 1 }
        ((T.neighbours w).map (announcement w · w))
  | lead (u z : Id) :
      Turn T w e (some (announcement u w z)) (e.onLeader z (T.degree w)).1
        (if e.leaderEchoes = 0 ∧ z ≠ w then (T.neighbours w).map (announcement w · z) else [])

/-- Tokens are sent in a start, in a join or as an answer. -/
theorem Turn.of_token {e' : Election} {heard : Option Packet} {new : List Packet}
    (t : Turn T w e heard e' new) (h : token u v x ∈ new) :
    heard = none ∧ x = w ∨ x ≠ w ∧ (e.isOutbid x = false ∨ e.candidate = some x) ∧
      ∃ a, heard = some (token a w x) := by
  cases t with
  | idle hi => simp at h
  | start hw ho => exact .inl ⟨rfl, (token_mem_map.1 h).2.2⟩
  | pass a y c hc hlt => simp at h
  | join a y ho hy =>
    obtain rfl : x = y := by
      rcases List.mem_append.1 h with h | h
      · obtain ⟨b, -, hb⟩ := List.mem_map.1 h
        exact (token_inj.1 hb).2.2.symm
      · split at h <;> simp_all
    exact .inr ⟨hy, .inl ho, a, rfl⟩
  | count a y hc hd => simp at h
  | echo a y b hc hd hy hp =>
    obtain rfl : x = y := (token_inj.1 (List.mem_singleton.1 h)).2.2
    exact .inr ⟨hy, .inr hc, a, rfl⟩
  | announce a hc hd => simp at h
  | lead a z => split at h <;> simp at h

/-- A server announces its own wave on the last token of it, and the first other one that it hears
of, to all neighbours. -/
theorem Turn.of_announcement {e' : Election} {heard : Option Packet} {new : List Packet}
    (t : Turn T w e heard e' new) (h : announcement u v z ∈ new) :
    (∀ v', T.Linked w v' → announcement w v' z ∈ new) ∧
      (z = w ∧ e.candidate = some w ∧ (∃ a, heard = some (token a w w)) ∨
        z ≠ w ∧ e.leaderEchoes = 0 ∧ ∃ a, heard = some (announcement a w z)) := by
  cases t with
  | idle hi => simp at h
  | start hw ho => simp at h
  | pass a y c hc hlt => simp at h
  | join a y ho hy => split at h <;> simp at h
  | count a y hc hd => simp at h
  | echo a y b hc hd hy hp => simp at h
  | announce a hc hd =>
    obtain rfl : z = w := (announcement_mem_map.1 h).2.2
    exact ⟨fun v' hl => announcement_mem_map.2 ⟨rfl, hl, rfl⟩, .inl ⟨rfl, hc, a, rfl⟩⟩
  | lead a y =>
    split at h
    next hy =>
      obtain rfl : z = y := (announcement_mem_map.1 h).2.2
      rw [if_pos hy]
      exact ⟨fun v' hl => announcement_mem_map.2 ⟨rfl, hl, rfl⟩, .inr ⟨hy.2, hy.1, a, rfl⟩⟩
    next => simp at h

/-- A new message has gone nowhere, so that only `except` is left out. -/
theorem packets_flood_new (except : Option Id) (type : MessageType) (content : Content) :
    T.packets w (.flood except type (.new w content)) =
      ((T.neighbours w).filter fun v => some v ≠ except).map
        fun v => ⟨w, v, type, (Message.new w content).appendToPath w⟩ := by
  simp only [Topology.packets]
  congr 1
  refine List.filter_congr fun v hv => ?_
  have hne : v ≠ w := (Topology.mem_neighbours.1 hv).ne.symm
  have hvisit : v ∉ ((Message.new w content).appendToPath w).path := by
    rw [Message.mem_path_appendToPath]
    simp [Message.new, hne]
  simp [Message.hasVisited, hvisit]

@[simp] theorem packets_all_token :
    T.packets w (.flood none MessageType.electionToken (.new w (.electionToken x))) =
      (T.neighbours w).map (token w · x) := by
  rw [packets_flood_new, List.filter_eq_self.2 (by simp)]
  rfl

@[simp] theorem packets_rest_token :
    T.packets w (.flood (some u) MessageType.electionToken (.new w (.electionToken x))) =
      ((T.neighbours w).filter (· ≠ u)).map (token w · x) := by
  rw [packets_flood_new]
  simp [token]

@[simp] theorem packets_announcement :
    T.packets w (.flood none MessageType.electionLeader (.new w (.electionLeader z))) =
      (T.neighbours w).map (announcement w · z) := by
  rw [packets_flood_new, List.filter_eq_self.2 (by simp)]
  rfl

@[simp] theorem packets_echo :
    T.packets w (.toServer v MessageType.electionToken (.new w (.electionToken x))) =
      [token w v x] := rfl

theorem start_turn (ho : e.own = w) (hd : 0 < T.degree w) :
    Turn T w e none (e.start (T.degree w)).1 ((e.start (T.degree w)).2.flatMap (T.packets w)) := by
  subst ho
  unfold start
  split
  next h => exact .idle (by simpa [← Option.isSome_iff_ne_none] using h)
  next h =>
    obtain ⟨hw, hb⟩ : e.winner = none ∧ e.isOutbid e.own = false := by simpa using h
    simpa [Nat.ne_of_gt hd, tokenMessage] using Turn.start hw hb

/-- A token is passed over, makes the server join, or counts as an answer. Of its own wave a server
hears only after it has started it, and in any other one it has a parent. -/
theorem onToken_turn (ho : e.own = w) (hx : x = w → e.isOutbid w = true)
    (hp : ∀ x, e.candidate = some x → x ≠ w → e.parent.isSome) :
    Turn T w e (some (token u w x)) (e.onToken u x (T.degree w)).1
      ((e.onToken u x (T.degree w)).2.flatMap (T.packets w)) := by
  subst ho
  cases hb : e.isOutbid x with
  | false =>
    have hne : x ≠ e.own := fun h => by
      rw [h, hx h] at hb
      exact absurd hb (by simp)
    have hturn := Turn.join (T := T) u x hb hne
    by_cases h1 : T.degree e.own = 1
    · simpa [onToken, join, hb, countEcho, finishWave, hne, h1, tokenMessage] using hturn
    · simpa [onToken, join, hb, countEcho, h1, Ne.symm h1, tokenMessage] using hturn
  | true =>
    obtain ⟨c, hc, hle⟩ := isOutbid_iff.1 hb
    by_cases hcx : c = x
    · subst hcx
      have hstep : e.onToken u c (T.degree e.own) =
          ({ e with tokenEchoes := e.tokenEchoes + 1 },
            if e.tokenEchoes + 1 = T.degree e.own then
              ({ e with tokenEchoes := e.tokenEchoes + 1 } : Election).finishWave c else []) := by
        simp [onToken, join, hb, countEcho, hc]
      rw [hstep]
      by_cases hfull : e.tokenEchoes + 1 = T.degree e.own
      · rw [if_pos hfull]
        by_cases hown : c = e.own
        · have hturn := Turn.announce (T := T) u (hown ▸ hc) hfull
          simpa [finishWave, hown, leaderMessage] using hturn
        · obtain ⟨v, hv⟩ := Option.isSome_iff_exists.1 (hp c hc hown)
          have hturn := Turn.echo (T := T) u c v hc hfull hown hv
          simpa [finishWave, hown, hv, tokenMessage] using hturn
      · rw [if_neg hfull]
        exact .count u c hc hfull
    · have hlt : c < x := by
        rw [← UInt32.not_le]
        exact fun h => hcx (UInt32.le_antisymm hle h)
      simpa [onToken, join, hb, countEcho, hc, hcx] using
        Turn.pass (T := T) (w := e.own) u x c hc hlt

theorem onLeader_turn (ho : e.own = w) :
    Turn T w e (some (announcement u w z)) (e.onLeader z (T.degree w)).1
      ((e.onLeader z (T.degree w)).2.flatMap (T.packets w)) := by
  subst ho
  have hsends : (e.onLeader z (T.degree e.own)).2.flatMap (T.packets e.own) =
      if e.leaderEchoes = 0 ∧ z ≠ e.own then
        (T.neighbours e.own).map (announcement e.own · z) else [] := by
    have hrelay : (e.onLeader z (T.degree e.own)).2 =
        if e.leaderEchoes = 0 ∧ z ≠ e.own then
          [.flood none MessageType.electionLeader (e.leaderMessage z)] else [] := by
      unfold onLeader
      dsimp only
      split <;> rfl
    rw [hrelay]
    split <;> simp [leaderMessage]
  rw [hsends]
  exact .lead u z

end Election

end RelayMesh
