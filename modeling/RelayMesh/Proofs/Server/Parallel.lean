import RelayMesh.Proofs.Routes.Learning
import RelayMesh.Proofs.Server.Handover

namespace RelayMesh

namespace Server

/-- The server `peer` registers over each of the connections, in this order. -/
def register (s : Server) (peer : Id) (links : List LinkId) : Server :=
  links.foldl (fun s link => s.addNeighbour peer link) s

/-- The event leaves the connections to `peer` alone: nobody gets its identity, and none of the
connections is registered anew or ends. -/
def Event.Spares (peer : Id) (links : List LinkId) : Event → Prop
  | .neighbour id link => id ≠ peer ∧ link ∉ links
  | .client id link => id ≠ peer ∧ link ∉ links
  | .close link => link ∉ links
  | _ => True

instance (peer : Id) (links : List LinkId) : DecidablePred (Event.Spares peer links)
  | .neighbour id link => inferInstanceAs (Decidable (id ≠ peer ∧ link ∉ links))
  | .client id link => inferInstanceAs (Decidable (id ≠ peer ∧ link ∉ links))
  | .close link => inferInstanceAs (Decidable (link ∉ links))
  | .arrive _ _ _ | .advance _ | .obey _ | .release _ => .isTrue trivial

/-- Of the connections to `peer`, the server uses `last` only. -/
structure Keeps (s : Server) (peer : Id) (links : List LinkId) (last : LinkId) : Prop where
  entry : s.routes.get? peer = some ⟨.server 1 peer, last⟩
  others : ∀ link ∈ links, link ≠ last → s.routes.Unused link

variable {s s' : Server} {peer : Id} {links : List LinkId} {last : LinkId}

/-- The connection that was registered last is the one in the routes. -/
theorem get?_register (hp : peer ≠ s.routes.own) (hl : links.getLast? = some last) (id : Id) :
    (s.register peer links).routes.get? id =
      if id = peer then some ⟨.server 1 peer, last⟩ else s.routes.get? id := by
  induction links generalizing s with
  | nil => simp at hl
  | cons link links ih =>
    rw [register, List.foldl_cons]
    cases links with
    | nil =>
      obtain rfl : link = last := by simpa using hl
      rw [List.foldl_nil, get?_addNeighbour]
      simp [hp]
    | cons next links =>
      have hrest := ih (s := s.addNeighbour peer link) (by simpa using hp) (by simpa using hl)
      rw [← register, hrest, get?_addNeighbour]
      by_cases hid : id = peer <;> simp [hid]

theorem keeps_register (hp : peer ≠ s.routes.own) (hu : ∀ link ∈ links, s.routes.Unused link)
    {order : List LinkId} (hl : order.getLast? = some last) :
    (s.register peer order).Keeps peer links last where
  entry := by rw [get?_register hp hl, if_pos rfl]
  others := by
    intro link hlink hne id r hget
    rw [get?_register hp hl] at hget
    split at hget
    · obtain rfl := Option.some.inj hget
      exact Ne.symm hne
    · exact hu link hlink id r hget

/-- Only its last connection leads to the peer. -/
theorem Keeps.isSome_atLink (h : s.Keeps peer links last) {link : LinkId} (hl : link ∈ links) :
    (s.routes.atLink link).isSome ↔ link = last := by
  constructor
  · intro hsome
    by_contra hne
    rw [(h.others link hl hne).atLink] at hsome
    simp at hsome
  · rintro rfl
    exact Routes.isSome_atLink h.entry rfl

theorem Keeps.of_get? (h : s.Keeps peer links last)
    (hget : ∀ id, s'.routes.get? id = s.routes.get? id) : s'.Keeps peer links last where
  entry := by rw [hget, h.entry]
  others := by
    intro link hl hne id r hr
    rw [hget] at hr
    exact h.others link hl hne id r hr

theorem Keeps.of_sends {came : Option Message} (h : s.Keeps peer links last)
    (hs : Sends came s s') : s'.Keeps peer links last := h.of_get? hs.get?

/-- A route of one hop is not improved by any path, and what is learned leads over a connection that
is in use. -/
theorem Keeps.arrive (h : s.Keeps peer links last) (hooks : Interception) (link : LinkId)
    (f : Frame) : (s.arrive hooks link f).1.Keeps peer links last := by
  rcases s.get?_arrive hooks link f with hsame | ⟨id, route, msg, hat, -, -, hget⟩
  · exact h.of_get? hsame
  have hused := (Routes.of_atLink hat).1
  constructor
  case entry =>
    rw [hget]
    rcases Routes.get?_learn s.routes msg.path route.link peer with hsame | ⟨-, -, _, i, -, -, hlong, -⟩
    · rw [hsame, h.entry]
    · exact absurd ⟨1, peer, last, h.entry, by simp [Routes.maxHops]⟩ hlong
  case others =>
    intro other hl hne id' r hr
    rw [hget] at hr
    rcases Routes.get?_learn s.routes msg.path route.link id' with hsame | ⟨-, -, _, i, -, -, -, hnew⟩
    · rw [hsame] at hr
      exact h.others other hl hne id' r hr
    · rw [hnew] at hr
      obtain rfl := Option.some.inj hr
      exact h.others other hl hne id route hused

/-- Another entity registers over another connection. -/
theorem Keeps.set (h : s.Keeps peer links last) {id : Id} {route : Route} (hid : id ≠ peer)
    (hroute : route.link ∉ links) (hs : s'.routes = s.routes.set id route) :
    s'.Keeps peer links last where
  entry := by rw [hs, Routes.get?_set, if_neg fun he => hid he.1.symm, h.entry]
  others := by
    intro link hl hne other r hr
    rw [hs, Routes.get?_set] at hr
    split at hr
    · obtain rfl := Option.some.inj hr
      exact fun he => hroute (he ▸ hl)
    · exact h.others link hl hne other r hr

theorem Keeps.close (h : s.Keeps peer links last) (hlast : last ∈ links) {link : LinkId}
    (hlink : link ∉ links) : (s.closeLink link).Keeps peer links last := by
  unfold closeLink
  split
  · exact h
  have hget (id : Id) : (s.routes.removeLink link).1.get? id =
      (s.routes.get? id).filter fun r => r.link ≠ link := by
    simp [Routes.removeLink, Routes.get?]
  constructor
  case entry =>
    have hne : last ≠ link := fun he => hlink (he ▸ hlast)
    simp [hget, h.entry, hne]
  case others =>
    intro other hl hne id r hr
    rw [hget, Option.filter_eq_some_iff] at hr
    exact h.others other hl hne id r hr.1

/-- Nothing but a new registration or the end of a connection changes which one is used. -/
theorem Keeps.handle (h : s.Keeps peer links last) (hlast : last ∈ links) {e : Event}
    (he : e.Spares peer links) : (s.handle e).Keeps peer links last := by
  cases e with
  | arrive hooks link f => exact h.arrive hooks link f
  | neighbour id link => exact h.set he.1 he.2 rfl
  | client id link => exact h.set he.1 he.2 rfl
  | close link => exact h.close hlast he
  | advance ms => exact h.of_sends (s.sends_advance ms : Sends none s (s.advance ms))
  | obey c =>
    have hstems : ∀ msg ∈ c.message?, msg.Stems c.message? := fun msg hmsg =>
      .inr ⟨msg, hmsg, rfl, rfl⟩
    rcases s.obey_stems hstems with hdown | hs
    · exact h.of_get? fun id => by rw [Server.handle, hdown]; rfl
    · exact h.of_sends hs
  | release w => exact h.of_sends (s.sends_release w)

theorem Keeps.run (h : s.Keeps peer links last) (hlast : last ∈ links) {events : List Event}
    (he : ∀ e ∈ events, e.Spares peer links) :
    (events.foldl Server.handle s).Keeps peer links last := by
  induction events generalizing s with
  | nil => exact h
  | cons e events ih =>
    exact ih (h.handle hlast (he e List.mem_cons_self)) fun e' he' =>
      he e' (List.mem_cons_of_mem _ he')

/-- All that the server sends to `peer` goes over `link`, whether it is for `peer` alone or a copy of a
flood. -/
structure SendsOver (s : Server) (peer : Id) (link : LinkId) : Prop where
  alone : ∀ type msg s', s.sendTo peer type msg = .ok s' → ∃ f, ∀ other,
    s'.outbox.waiting other = s.outbox.waiting other ++ if other = link then [f] else []
  copies : ∀ route, (peer, route) ∈ s.routes.neighbours ↔ route = ⟨.server 1 peer, link⟩

theorem Keeps.sendsOver (h : s.Keeps peer links last) : s.SendsOver peer last where
  alone := by
    intro type msg s' hs
    obtain ⟨-, route, f, outbox, hget, -, hpush, rfl⟩ := sendTo_eq_ok_iff.1 hs
    obtain rfl : route = ⟨.server 1 peer, last⟩ := Option.some.inj (hget.symm.trans h.entry)
    exact ⟨f, Outbox.waiting_of_push hpush⟩
  copies := by
    intro route
    have hget : (peer, route) ∈ s.routes.entries.toList ↔ s.routes.get? peer = some route :=
      s.routes.entries.mem_toList_iff
    rw [Routes.neighbours, List.mem_filter, hget, h.entry]
    constructor
    · exact fun hmem => (Option.some.inj hmem.1).symm
    · rintro rfl
      exact ⟨rfl, rfl⟩

/-- What comes over any other of the connections is dropped. -/
theorem Keeps.arrive_other (h : s.Keeps peer links last) {link : LinkId} (hl : link ∈ links)
    (hne : link ≠ last) (hooks : Interception) (f : Frame) :
    s.arrive hooks link f = (s, none) := by
  unfold Server.arrive handleFrame
  rw [(h.others link hl hne).atLink]
  split <;> rfl

/-- A connection between two servers, with the number that it has at either end. -/
structure Cable where
  left : LinkId
  right : LinkId
deriving DecidableEq

/-- Two servers, and connections between them that neither has used so far. -/
structure Cabled (a b : Server) (cables : List Cable) : Prop where
  apart : a.identity ≠ b.identity
  ownLeft : a.routes.own = a.identity
  ownRight : b.routes.own = b.identity
  unusedLeft : ∀ c ∈ cables, a.routes.Unused c.left
  unusedRight : ∀ c ∈ cables, b.routes.Unused c.right
  numbersLeft : (cables.map (·.left)).Nodup
  numbersRight : (cables.map (·.right)).Nodup

/-- Two servers register each other over all connections between them, each in an order of its own, and
then anything happens to them that leaves these connections alone. What either of them sends to the
other one goes over the connection that it registered last; and the other one takes it if and only if
it registered that connection last as well. Otherwise both drop all that they send each other. -/
theorem heard_iff_same_last {a b : Server} {cables first second : List Cable}
    (h : Cabled a b cables) (hfirst : first.Perm cables) (hsecond : second.Perm cables) {c d : Cable}
    (hc : first.getLast? = some c) (hd : second.getLast? = some d) {left right : List Event}
    (hleft : ∀ e ∈ left, e.Spares b.identity (cables.map (·.left)))
    (hright : ∀ e ∈ right, e.Spares a.identity (cables.map (·.right))) :
    let a' := left.foldl handle (a.register b.identity (first.map (·.left)))
    let b' := right.foldl handle (b.register a.identity (second.map (·.right)))
    a'.SendsOver b.identity c.left ∧ b'.SendsOver a.identity d.right ∧
    ((b'.routes.atLink c.right).isSome ↔ c = d) ∧ ((a'.routes.atLink d.left).isSome ↔ c = d) ∧
    (c ≠ d → ∀ hooks f, b'.arrive hooks c.right f = (b', none) ∧
      a'.arrive hooks d.left f = (a', none)) := by
  intro a' b'
  have mem_left {e : Cable} (he : e ∈ cables) : e.left ∈ cables.map (·.left) :=
    List.mem_map_of_mem he
  have mem_right {e : Cable} (he : e ∈ cables) : e.right ∈ cables.map (·.right) :=
    List.mem_map_of_mem he
  have hcm : c ∈ cables := hfirst.subset (List.mem_of_getLast? hc)
  have hdm : d ∈ cables := hsecond.subset (List.mem_of_getLast? hd)
  have hleftOnly : d.left = c.left → c = d := fun he =>
    (List.inj_on_of_nodup_map h.numbersLeft hdm hcm he).symm
  have hrightOnly : c.right = d.right → c = d :=
    List.inj_on_of_nodup_map h.numbersRight hcm hdm
  have ka : a'.Keeps b.identity (cables.map (·.left)) c.left := by
    refine (keeps_register (h.ownLeft ▸ h.apart.symm) ?_ ?_).run (mem_left hcm) hleft
    · simpa using h.unusedLeft
    · simp [hc]
  have kb : b'.Keeps a.identity (cables.map (·.right)) d.right := by
    refine (keeps_register (h.ownRight ▸ h.apart) ?_ ?_).run (mem_right hdm) hright
    · simpa using h.unusedRight
    · simp [hd]
  refine ⟨ka.sendsOver, kb.sendsOver, ?_, ?_,
    fun hne hooks f => ⟨kb.arrive_other (mem_right hcm) (fun he => hne (hrightOnly he)) hooks f,
      ka.arrive_other (mem_left hdm) (fun he => hne (hleftOnly he)) hooks f⟩⟩
  · rw [kb.isSome_atLink (mem_right hcm)]
    exact ⟨hrightOnly, fun he => he ▸ rfl⟩
  · rw [ka.isSome_atLink (mem_left hdm)]
    exact ⟨hleftOnly, fun he => he ▸ rfl⟩

/-- A server with two connections that it has not used yet. -/
def unlinked (id : Id) : Server :=
  { Server.new id {} with outbox := (Outbox.addLink .empty 0 4).addLink 1 4 }

theorem unused_unlinked (id : Id) (link : LinkId) : (unlinked id).routes.Unused link := by
  intro other r hget
  cases hget

/-- Both connections are registered in the same order, and then a third server connects. -/
theorem heard_iff_same_last_unlinked :
    let cables : List Cable := [⟨0, 0⟩, ⟨1, 1⟩]
    let a := [Event.neighbour 3 2, .obey .announce].foldl handle ((unlinked 1).register 2 [0, 1])
    let b := (unlinked 2).register 1 [0, 1]
    Cabled (unlinked 1) (unlinked 2) cables ∧ a.SendsOver 2 1 ∧ (b.routes.atLink 1).isSome ∧
      (a.routes.atLink 1).isSome := by
  intro cables a b
  have hcabled : Cabled (unlinked 1) (unlinked 2) cables :=
    ⟨by decide, rfl, rfl, fun _ _ => unused_unlinked 1 _, fun _ _ => unused_unlinked 2 _,
      by decide, by decide⟩
  have hleft : ∀ e ∈ [Event.neighbour 3 2, .obey .announce],
      e.Spares (unlinked 2).identity (cables.map (·.left)) := by
    rintro e (_ | ⟨_, _ | ⟨_, ⟨⟩⟩⟩)
    · decide
    · trivial
  have hright : ∀ e ∈ ([] : List Event),
      e.Spares (unlinked 1).identity (cables.map (·.right)) := by simp
  obtain ⟨hsends, -, hb, ha, -⟩ := heard_iff_same_last hcabled (List.Perm.refl cables)
    (List.Perm.refl cables) (c := ⟨1, 1⟩) (d := ⟨1, 1⟩) rfl rfl hleft hright
  exact ⟨hcabled, hsends, hb.2 rfl, ha.2 rfl⟩

/-- If the two ends register two connections in opposite orders, both count a neighbour, and all that
either sends to the other goes over a connection at which the other one knows of nobody. -/
theorem crossed_connections :
    let a := (unlinked 1).register 2 [0, 1]
    let b := (unlinked 2).register 1 [1, 0]
    let request := Message.new 1 (.mutexRequest 1)
    a.neighbourCount = 1 ∧ b.neighbourCount = 1 ∧
      (a.sendTo 2 MessageType.mutexRequest request).toOption.map
        (fun s => (s.outbox.waiting 1).length) = some 1 ∧
      b.routes.atLink 1 = none ∧ b.routes.get? 1 = some ⟨.server 1 1, 0⟩ ∧
      a.routes.atLink 0 = none := by
  decide +kernel

end Server

end RelayMesh
