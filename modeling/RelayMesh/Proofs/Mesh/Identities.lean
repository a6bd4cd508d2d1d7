import RelayMesh.Proofs.Mesh.Enrolled
import RelayMesh.Proofs.Startup.Arguments

namespace RelayMesh

/-- Servers that can be started together: their identities are valid and distinct, and none of them is
in the hundred that another one gives to its clients. -/
structure Roster (startups : List Startup) : Prop where
  distinct : (startups.map (·.identity)).Nodup
  valid : ∀ s ∈ startups, s.validate = .ok ()
  spaced : ∀ s ∈ startups, ∀ t ∈ startups,
    t.identity.toNat / Server.clientsPerServer ≠ s.identity.toNat

/-- A server with a port has a small number. -/
theorem Startup.identity_le_of_validate {s : Startup} (h : s.validate = .ok ()) :
    s.identity.toNat ≤ Config.maxPort := by
  have hle := (validate_eq_ok_iff.1 h).2.1.clients
  omega

namespace Roster

variable {startups : List Startup} {a b : Id} {k l : Nat}

theorem identity_le (h : Roster startups) (ha : a ∈ startups.map (·.identity)) :
    a.toNat ≤ Config.maxPort := by
  obtain ⟨s, hs, rfl⟩ := List.mem_map.1 ha
  exact Startup.identity_le_of_validate (h.valid s hs)

theorem toNat_clientId (h : Roster startups) (ha : a ∈ startups.map (·.identity))
    (hk : k < Server.clientsPerServer) :
    (Server.clientId a k).toNat = a.toNat * Server.clientsPerServer + k := by
  have hle := h.identity_le ha
  unfold Config.maxPort at hle
  unfold Server.clientsPerServer at hk
  unfold Server.clientId Server.clientsPerServer maxWord
  rw [Nat.min_eq_left (by omega), UInt32.toNat_ofNat_of_lt' (by show _ < 4294967296; omega)]

/-- A client's identity tells its server and its number there. -/
theorem clientId_inj (h : Roster startups) (ha : a ∈ startups.map (·.identity))
    (hb : b ∈ startups.map (·.identity)) (hk : k < Server.clientsPerServer)
    (hl : l < Server.clientsPerServer) (he : Server.clientId a k = Server.clientId b l) :
    a = b ∧ k = l := by
  have hnat := congrArg UInt32.toNat he
  rw [h.toNat_clientId ha hk, h.toNat_clientId hb hl] at hnat
  unfold Server.clientsPerServer at *
  exact ⟨UInt32.toNat_inj.1 (by omega), by omega⟩

/-- No server has the identity of a client. -/
theorem clientId_not_mem (h : Roster startups) (ha : a ∈ startups.map (·.identity))
    (hk : k < Server.clientsPerServer) : Server.clientId a k ∉ startups.map (·.identity) := by
  intro hmem
  obtain ⟨t, ht, he⟩ := List.mem_map.1 hmem
  have hnat := congrArg UInt32.toNat he
  rw [h.toNat_clientId ha hk] at hnat
  obtain ⟨s, hs, rfl⟩ := List.mem_map.1 ha
  refine h.spaced s hs t ht ?_
  unfold Server.clientsPerServer at *
  omega

end Roster

namespace Server

/-- No command is answered with an identity. -/
theorem answer_obey_ne (s : Server) (c : Command) (id : Id) : (s.obey c).2 ≠ .identity id := by
  have hattempt (step : Except Fault Server) : (s.attempt step).2 ≠ .identity id := by
    cases step <;> nofun
  cases c with
  | send dest type msg => exact hattempt _
  | execute type msg => exact hattempt _
  | executeMessage msg => exact hattempt _
  | receive kind msg => exact hattempt _
  | _ => exact fun h => by cases h

end Server

namespace Mesh

/-- A mesh of servers that are started together, without connections. -/
def ofStartups (startups : List Startup) (hooks : Interception) : Mesh where
  stations := .ofList (startups.map fun s => (s.identity, Station.new s.identity s.config))
  hooks

/-- The identity that a client gets in a move. -/
def accepted? (m : Mesh) : Move → Option Id
  | .step s =>
    match m.act s with
    | some (_, .identity id, _) => some id
    | _ => none
  | _ => none

/-- The identities that clients get in a run, in order. -/
def accepted (m : Mesh) : List Move → List Id
  | [] => []
  | mv :: moves => (m.accepted? mv).toList ++ (m.move mv).accepted moves

/-- A client that is accepted gets a new entry in the routes of its server. -/
def AddsOnly (m : Mesh) : Move → Prop
  | .step (.at id (.client _ _)) =>
    ∀ st ∈ m.station? id, st.server.routes.get? st.server.mintClientId.2 = none
  | _ => True

instance (m : Mesh) : DecidablePred m.AddsOnly
  | .step (.at id (.client _ _)) => inferInstanceAs (Decidable
      (∀ st ∈ m.station? id, st.server.routes.get? st.server.mintClientId.2 = none))
  | .step (.at _ (.command _)) | .step (.at _ (.neighbour _ _ _)) | .step (.at _ (.frame _ _ _))
  | .step (.at _ (.closed _)) | .step (.at _ (.unhold _)) | .step (.at _ (.dropQueue _))
  | .step (.at _ (.closeLine _ _)) | .step (.at _ (.start _)) | .step (.advance _)
  | .step (.enable _) | .step (.pick _) | .step (.lose _) | .step (.cut _ _) | .join _ _
  | .deliver _ => .isTrue trivial

theorem enrolled_ofStartups (startups : List Startup) (hooks : Interception) :
    (ofStartups startups hooks).Enrolled (startups.map (·.identity)) fun _ => 0 where
  stations := by
    intro id st hs
    obtain ⟨s, hmem, he⟩ := List.mem_map.1 (SortedMap.mem_of_get?_ofList hs)
    cases he
    exact {
      member := List.mem_map_of_mem hmem
      identity := rfl
      least := Nat.le_refl _
      most := Nat.zero_le _
      routes := fun _ hsome => by cases hsome
      queues := fun _ _ hf => by cases hf }
  wire _ h := by cases h
  waiting _ h := by cases h

/-- Nothing but a client that is accepted is answered with an identity. -/
theorem accepted?_eq_some {m : Mesh} {mv : Move} {x : Id} (h : m.accepted? mv = some x) :
    ∃ a label options st, mv = .step (.at a (.client label options)) ∧ m.station? a = some st ∧
      x = st.server.mintClientId.2 := by
  unfold accepted? at h
  split at h
  next s =>
    split at h
    next m' id shown ha =>
      obtain rfl : id = x := Option.some.inj h
      cases s with
      | «at» a s =>
        obtain ⟨st, hs, hact⟩ := Option.map_eq_some_iff.1 ha
        cases s with
        | client label options =>
          cases hact
          exact ⟨a, label, options, st, rfl, hs, rfl⟩
        | command c =>
          simp only [actAt, Prod.mk.injEq] at hact
          exact absurd hact.2.1 (st.server.answer_obey_ne c id)
        | closed label =>
          simp only [actAt] at hact
          split at hact <;> cases hact
        | unhold label =>
          simp only [actAt] at hact
          split at hact <;> cases hact
        | dropQueue label =>
          simp only [actAt] at hact
          split at hact <;> cases hact
        | _ => cases hact
      | pick k =>
        obtain ⟨_, _, hact⟩ := Option.map_eq_some_iff.1 ha
        cases hact
      | lose k =>
        obtain ⟨_, _, hact⟩ := Option.map_eq_some_iff.1 ha
        cases hact
      | _ => cases ha
    next => cases h
  next => cases h

section Roster

variable {startups : List Startup} (hr : Roster startups) {floor : Id → Nat} {m : Mesh}

include hr

/-- The next identity of a server has no route there. -/
theorem Enrolled.get?_mintClientId (h : m.Enrolled (startups.map (·.identity)) floor) {a : Id}
    {st : Station} (hs : m.station? a = some st)
    (hk : st.server.minted < Server.clientsPerServer) :
    st.server.routes.get? st.server.mintClientId.2 = none := by
  have hst := h.stations a st hs
  rw [Server.mintClientId_eq, hst.identity]
  by_contra hsome
  rcases hst.routes _ (Option.isSome_iff_ne_none.2 hsome) with hmem | ⟨l, hl, he⟩
  · exact hr.clientId_not_mem hst.member hk hmem
  · have hsame := (hr.clientId_inj hst.member hst.member hk (Nat.lt_trans hl hk) he).2
    exact Nat.lt_irrefl _ (hsame ▸ hl)

/-- From here on, servers give their clients the next numbers, each once. -/
theorem Enrolled.accepted (h : m.Enrolled (startups.map (·.identity)) floor) {moves : List Move}
    (ho : Obeys (Proper (startups.map (·.identity))) m moves) :
    (m.accepted moves).Nodup ∧ Obeys AddsOnly m moves ∧ ∀ x ∈ m.accepted moves,
      ∃ a ∈ startups.map (·.identity), ∃ k, floor a ≤ k ∧ k < Server.clientsPerServer ∧
        x = Server.clientId a k := by
  induction moves generalizing m floor with
  | nil => exact ⟨List.nodup_nil, trivial, fun _ hx => by cases hx⟩
  | cons mv moves ih =>
    have hadds : AddsOnly m mv := by
      unfold AddsOnly
      split
      next a label options => exact fun st hs => h.get?_mintClientId hr hs (ho.1 st hs)
      next => trivial
    cases hx : m.accepted? mv with
    | none =>
      obtain ⟨hnodup, hobeys, hall⟩ := ih (h.move ho.1) ho.2
      simp only [Mesh.accepted, hx, Option.toList_none, List.nil_append]
      exact ⟨hnodup, ⟨hadds, hobeys⟩, hall⟩
    | some x =>
      obtain ⟨a, label, options, st, rfl, hs, rfl⟩ := accepted?_eq_some hx
      have hst := h.stations a st hs
      have hk : st.server.minted < Server.clientsPerServer := ho.1 st hs
      have hown : st.server.mintClientId.2 = Server.clientId a st.server.minted := by
        rw [Server.mintClientId_eq, hst.identity]
      obtain ⟨hnodup, hobeys, hall⟩ := ih (h.move_client hs hk label options) ho.2
      simp only [Mesh.accepted, hx, Option.toList_some, List.singleton_append]
      refine ⟨List.nodup_cons.2 ⟨fun hmem => ?_, hnodup⟩, ⟨hadds, hobeys⟩, fun y hy => ?_⟩
      · obtain ⟨b, hb, l, hfloor, hl, he⟩ := hall _ hmem
        rw [hown] at he
        obtain ⟨rfl, rfl⟩ := hr.clientId_inj hst.member hb hk hl he
        simp at hfloor
      · rcases List.mem_cons.1 hy with rfl | hy
        · exact ⟨a, hst.member, _, hst.least, hk, hown⟩
        · obtain ⟨b, hb, l, hfloor, hl, he⟩ := hall y hy
          refine ⟨b, hb, l, ?_, hl, he⟩
          rw [Function.update_apply] at hfloor
          split at hfloor
          next hba => exact Nat.le_trans (hba ▸ hst.least) (Nat.le_of_succ_le hfloor)
          next => exact hfloor

/-- Servers that are started together, with whatever settings, connections, losses and commands, as
long as each accepts no more than a hundred clients and nothing from outside has others than servers
on its path: no two clients get the same identity and none gets that of a server, every client that is
accepted is new in the routes of its server, and no two of them share a record of chat. -/
theorem identities_apart (hooks : Interception) {moves : List Move}
    (ho : Obeys (Proper (startups.map (·.identity))) (ofStartups startups hooks) moves) :
    let m := ofStartups startups hooks
    (∀ x ∈ m.accepted moves, x ∉ startups.map (·.identity)) ∧ Obeys AddsOnly m moves ∧
      (m.accepted moves).Pairwise fun x y => x ≠ y ∧ ∀ (t : Routes) n k,
        (t.recordChat x n).isNewChat y k = t.isNewChat y k ∧
          (t.recordChat y n).isNewChat x k = t.isNewChat x k := by
  intro m
  obtain ⟨hnodup, hadds, hall⟩ := (enrolled_ofStartups startups hooks).accepted hr ho
  refine ⟨fun x hx => ?_, hadds, hnodup.imp fun hne => ⟨hne, fun t n k => ⟨?_, ?_⟩⟩⟩
  · obtain ⟨a, ha, k, -, hk, rfl⟩ := hall x hx
    exact hr.clientId_not_mem ha hk
  · simp [Routes.isNewChat, Routes.recordChat, hne.symm]
  · simp [Routes.isNewChat, Routes.recordChat, hne]

end Roster

/-- Servers with these identities, each with the usual settings. -/
def numbered (identities : List Id) : List Startup := identities.map fun identity => { identity }

/-- The frame in which a client says its first line, with a path of its choice. -/
def firstLine (client : Id) (path : List Id) : Frame :=
  ⟨MessageType.chat, client, Wire.encodeMessage { Message.new client (.chat 0 "hello") with path }⟩

/-- Three clients are accepted, one of them says something, and the servers lose each other. -/
def arrivals : List Move :=
  [.step (.at 2 (.start [1])), .step (.at 1 (.client none {})), .step (.at 1 (.client none {})),
    .step (.at 2 (.client none {})), .step (.at 1 (.frame "100" {} (firstLine 100 []))), .deliver 1,
    .step (.cut 1 2), .deliver 0]

theorem identities_apart_arrivals :
    let m := ofStartups (numbered [1, 2]) {}
    Roster (numbered [1, 2]) ∧ Obeys (Proper [1, 2]) m arrivals ∧
      m.accepted arrivals = [100, 101, 200] ∧ (∀ x ∈ m.accepted arrivals, x ∉ [(1 : Id), 2]) ∧
        Obeys AddsOnly m arrivals := by
  intro m
  have hr : Roster (numbered [1, 2]) := ⟨by decide, by decide +kernel, by decide⟩
  have ho : Obeys (Proper [1, 2]) m arrivals := by decide +kernel
  have hids : m.accepted arrivals = [100, 101, 200] := by decide +kernel
  obtain ⟨happart, hadds, -⟩ := identities_apart hr {} ho
  exact ⟨hr, ho, hids, happart, hadds⟩

/-- Identities collide if a server has a number in the hundred of another one, if a server accepts more
than a hundred clients, and if a client puts the identity of a client to come on the path of a line:
the first client of server 1 takes the place of the neighbour 100, the client number 100 of server 1
has the identity of the first client of server 2, and that client takes the place of what server 2
took for another server. -/
theorem identities_collide :
    let apart := ofStartups (numbered [1, 100]) {}
    let joined := apart.play [.join 1 100]
    let client := Move.step (.at 1 (.client none {}))
    let hundred := (List.range 100).foldl (fun s _ => s.mintClientId.1) (Server.new 1 {})
    let forged := (ofStartups (numbered [1, 2]) {}).play
      [.join 1 2, client, .step (.at 1 (.frame "100" {} (firstLine 100 [200]))), .deliver 0]
    (∀ s ∈ numbered [1, 100], s.validate = .ok ()) ∧ joined.accepted [client] = [100] ∧
      ((joined.server? 1).bind (·.routes.get? 100)).map (·.reach) = some (.server 1 100) ∧
      (((joined.move client).server? 1).bind (·.routes.get? 100)).map (·.reach) = some .client ∧
      hundred.mintClientId.2 = (Server.new 2 {}).mintClientId.2 ∧
      ¬ forged.AddsOnly (.step (.at 2 (.client none {}))) := by
  decide +kernel

end Mesh

end RelayMesh
