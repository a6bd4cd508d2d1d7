import RelayMesh.Proofs.Chat.Arrivals

namespace RelayMesh

namespace Station

variable {st st' st'' : Station} {id b c : Id} {label : String} {peer : Option Id} {capacity : Nat}
  {held : Bool}

/-- The station may have got connections and clients, and no chat has come to it. -/
structure Opens (st st' : Station) : Prop where
  waiting : ∀ link, ∀ f ∈ st'.server.outbox.waiting link, f ∈ st.server.outbox.waiting link
  lastChat : st'.server.routes.lastChat = st.server.routes.lastChat
  seated : st.Seated → st'.Seated

theorem opens_refl (st : Station) : st.Opens st := ⟨fun _ _ hf => hf, rfl, id⟩

theorem Opens.trans (h : st.Opens st') (h' : st'.Opens st'') : st.Opens st'' :=
  ⟨fun link f hf => h.waiting link f (h'.waiting link f hf), h'.lastChat.trans h.lastChat,
    fun hseated => h'.seated (h.seated hseated)⟩

theorem opens_connect (st : Station) (label : String) (peer : Option Id) (capacity : Nat)
    (held : Bool) : st.Opens (st.connect label peer capacity held).1 where
  waiting link f hf := by
    have hf : f ∈ (st.server.outbox.addLink st.nextLink capacity).waiting link := hf
    rw [waiting_addLink] at hf
    split at hf
    · exact absurd hf List.not_mem_nil
    · exact hf
  lastChat := rfl
  seated := id

theorem opens_joined (st : Station) (b : Id) : st.Opens (st.joined b) where
  waiting := (st.opens_connect ("s" ++ toString b) (some b) defaultCapacity false).waiting
  lastChat := Routes.lastChat_set _ _ _
  seated hseated c c' link hc hc' := by
    have hold {d : Id} (hd : (st.joined b).server.routes.get? d = some ⟨.client, link⟩) :
        st.server.routes.get? d = some ⟨.client, link⟩ := by
      rw [get?_joined] at hd
      split at hd
      · cases hd
      · exact hd
    exact hseated c c' link (hold hc) (hold hc')

/-- A client on a connection that no other client has. -/
theorem opens_addClient {link : LinkId}
    (hnew : ∀ d, st.server.routes.get? d ≠ some ⟨.client, link⟩) :
    st.Opens { st with server := st.server.addClient c link } where
  waiting _ _ hf := hf
  lastChat := Routes.lastChat_set _ _ _
  seated hseated d d' edge hd hd' := by
    rw [get?_addClient] at hd hd'
    split at hd
    next he =>
      obtain rfl : link = edge := by simpa using hd
      split at hd'
      next he' => exact he.1.trans he'.1.symm
      next => exact absurd hd' (hnew d')
    next =>
      split at hd'
      next =>
        obtain rfl : link = edge := by simpa using hd'
        exact absurd hd (hnew d)
      next => exact hseated d d' edge hd hd'

theorem opens_attached {label : Option String} {options : QueueOptions}
    (hnew : ∀ d, st.server.routes.get? d ≠ some ⟨.client, st.nextLink⟩) :
    st.Opens (st.attached label options) := by
  have hminted : st.Opens { st with server := st.server.mintClientId.1 } :=
    ⟨fun _ _ hf => hf, rfl, id⟩
  exact (hminted.trans (opens_connect _ _ none options.capacity options.held)).trans
    (opens_addClient hnew)

end Station

namespace Mesh

/-- What may happen before the first chat line: servers get connected, clients get attached, frames
arrive, operators give commands, and time passes. -/
def Prepares (m : Mesh) : Move → Prop
  | .join a b => m.Admits (.join a b)
  | .deliver _ => True
  | .step (.at id (.client label options)) => m.Admits (.step (.at id (.client label options)))
  | .step s => m.Allows (.step s)

instance (m : Mesh) : ∀ mv, Decidable (m.Prepares mv)
  | .join a b => inferInstanceAs (Decidable (m.Admits (.join a b)))
  | .deliver _ => .isTrue trivial
  | .step (.at id (.client label options)) =>
    inferInstanceAs (Decidable (m.Admits (.step (.at id (.client label options)))))
  | .step (.at id (.command c)) =>
    inferInstanceAs (Decidable (m.Allows (.step (.at id (.command c)))))
  | .step (.advance _) => .isTrue trivial
  | .step (.at _ (.neighbour _ _ _)) => .isFalse id
  | .step (.at _ (.frame _ _ _)) => .isFalse id
  | .step (.at _ (.closed _)) => .isFalse id
  | .step (.at _ (.unhold _)) => .isFalse id
  | .step (.at _ (.dropQueue _)) => .isFalse id
  | .step (.at _ (.closeLine _ _)) => .isFalse id
  | .step (.at _ (.start _)) => .isFalse id
  | .step (.enable _) => .isFalse id
  | .step (.pick _) => .isFalse id
  | .step (.lose _) => .isFalse id
  | .step (.cut _ _) => .isFalse id

/-- No chat has come to any server. -/
structure Mute (m : Mesh) : Prop where
  plain : m.Plain
  seated : m.Seated
  last : ∀ u b, m.last u b = none

variable {m m' : Mesh} {a b : Id} {st : Station} {mv : Move} {sent : List Sending}
  {servers : List Id} {config : Config}

theorem Mute.hush (h : m.Mute) (hm : m.Hush m') : m'.Mute :=
  ⟨hm.plain h.plain, hm.toKeeps.seated h.seated, fun u b => (hm.last u b).trans (h.last u b)⟩

theorem Mute.gathers (h : m.Mute) (hm : m.Gathers m' sent) : m'.Mute :=
  ⟨hm.plain h.plain, hm.toKeeps.seated h.seated, fun u b => (hm.last u b).trans (h.last u b)⟩

theorem Mute.opens (h : m.Mute) (hw : m'.wire = m.wire)
    (hst : ∀ u st', m'.station? u = some st' → ∃ st, m.station? u = some st ∧ st.Opens st') :
    m'.Mute where
  plain := by
    refine ⟨by rw [hw]; exact h.plain.wire, fun u link f hf => ?_⟩
    cases hs' : m'.station? u with
    | none => simp [letters, hs'] at hf
    | some st' =>
      obtain ⟨st, hs, hopens⟩ := hst u st' hs'
      rw [letters, hs'] at hf
      exact h.plain.letters u link f (by rw [letters, hs]; exact hopens.waiting link f hf)
  seated u st' hs' := by
    obtain ⟨st, hs, hopens⟩ := hst u st' hs'
    exact hopens.seated (h.seated u st hs)
  last u b := by
    cases hs' : m'.station? u with
    | none => simp [Mesh.last, hs']
    | some st' =>
      obtain ⟨st, hs, hopens⟩ := hst u st' hs'
      have hold := h.last u b
      rw [Mesh.last, hs] at hold
      rw [Mesh.last, hs', Option.bind_some, hopens.lastChat]
      exact hold

theorem effect_client (hs : m.station? a = some st) {label : Option String} {options : QueueOptions}
    (hlabel : st.named? (label.getD (toString st.server.mintClientId.2)) = none) :
    m.effect (.step (.at a (.client label options))) = m.set a (st.attached label options) := by
  rw [effect_at hs, actAt_client m hlabel]

/-- A client is attached, over a connection of its own. -/
theorem Calm.attach (h : m.Calm servers config) (hm : m.Mute) {label : Option String}
    {options : QueueOptions} (ha : m.Admits (.step (.at a (.client label options)))) :
    (m.effect (.step (.at a (.client label options)))).Calm servers config ∧
      (m.effect (.step (.at a (.client label options)))).Mute := by
  have hsane : (m.effect (.step (.at a (.client label options)))).Sane :=
    h.toSane.effect ha
  cases hs : m.station? a with
  | none =>
    rw [effect_at_none hs]
    exact ⟨h, hm⟩
  | some st =>
    obtain ⟨-, -, hlabel⟩ := ha st hs
    rw [effect_client hs hlabel] at hsane ⊢
    have hnew (d : Id) : st.server.routes.get? d ≠ some ⟨.client, st.nextLink⟩ := fun hget =>
      Nat.lt_irrefl _ ((h.wired a st hs).clients d _ hget).1
    have hcases {u : Id} {st' : Station}
        (hs' : (m.set a (st.attached label options)).station? u = some st') :
        ∃ old, m.station? u = some old ∧ old.Opens st' ∧ st'.server.config = old.server.config ∧
          st'.server.down = old.server.down := by
      rw [station?_set] at hs'
      split at hs'
      next hu =>
        obtain rfl := Option.some.inj hs'
        exact ⟨st, hu ▸ hs, Station.opens_attached hnew, rfl, rfl⟩
      next => exact ⟨st', hs', st'.opens_refl, rfl, rfl⟩
    refine ⟨⟨hsane, h.hooks, h.waiting, fun u => ?_, fun u st' hs' => ?_, fun u st' hs' => ?_⟩,
      hm.opens rfl fun u st' hs' => ?_⟩
    · rw [← h.members u, station?_set]
      split
      next hu => simp [hu, hs]
      next => rfl
    · obtain ⟨old, hold, -, -, hdown⟩ := hcases hs'
      rw [hdown, h.up u old hold]
    · obtain ⟨old, hold, -, hconfig, -⟩ := hcases hs'
      rw [hconfig, h.config u old hold]
    · obtain ⟨old, hold, hopens, -⟩ := hcases hs'
      exact ⟨old, hold, hopens⟩

theorem Calm.prepare (h : m.Calm servers config) (hm : m.Mute) (hmv : m.Prepares mv) :
    (m.effect mv).Calm servers config ∧ (m.effect mv).Mute := by
  have hush {s : Step} (hs : m.Allows (.step s)) :
      (m.effect (.step s)).Calm servers config ∧ (m.effect (.step s)).Mute :=
    have hhush := hush_effect hs
    ⟨h.still (h.toSane.effect hs.admits) hhush.still, hm.hush hhush⟩
  cases mv with
  | join a b =>
    obtain ⟨sa, sb, hab⟩ := h.toSane.exists_strangers hmv
    refine ⟨h.join_strangers hab, hm.opens (by simp [Mesh.effect, Mesh.join, joinOneWay])
      fun u st' hs' => ?_⟩
    rcases hab.cases hs' with ⟨st, d, hs, rfl, -, -⟩ | hs
    · exact ⟨st, hs, st.opens_joined d⟩
    · exact ⟨st', hs, st'.opens_refl⟩
  | deliver place =>
    refine ⟨(h.effect rfl).1, ?_⟩
    cases ht : m.wire[place]? with
    | none =>
      rw [effect_deliver_none ht]
      exact hm
    | some t =>
      have hplain := hm.plain.wire t (List.mem_of_getElem? ht)
      have herased : ({ m with wire := m.wire.eraseIdx place } : Mesh).Mute :=
        ⟨hm.plain.erase place, hm.seated, hm.last⟩
      rw [effect_deliver ht]
      exact herased.hush (hush_deliver (h.erase place) hplain.chat hplain.honest)
  | step s =>
    cases s with
    | «at» id s =>
      cases s with
      | client label options => exact h.attach hm hmv
      | _ => exact hush hmv
    | _ => exact hush hmv

theorem mute_new (servers : List Id) (config : Config) :
    (Mesh.new servers config [] false).Mute := by
  refine ⟨⟨fun t ht => absurd ht List.not_mem_nil, fun u link f hf => ?_⟩, fun u st hs => ?_,
    fun u b => ?_⟩
  · cases hs : (Mesh.new servers config [] false).station? u with
    | none => simp [letters, hs] at hf
    | some st =>
      rw [letters, hs, Option.elim_some, eq_of_station?_new hs] at hf
      exact absurd hf List.not_mem_nil
  · rw [eq_of_station?_new hs]
    intro c c' link hc
    cases hc
  · cases hs : (Mesh.new servers config [] false).station? u with
    | none => simp [last, hs]
    | some st =>
      rw [last, hs, Option.bind_some, eq_of_station?_new hs]
      rfl

/-- However servers have been connected and clients attached, there is no chat anywhere. -/
theorem prepared {servers : List Id} {config : Config} {moves : List Move}
    (h : (Mesh.new servers config [] false).Obeys Prepares moves) :
    ((Mesh.new servers config [] false).play moves).Calm servers config ∧
      ((Mesh.new servers config [] false).play moves).Mute := by
  refine play_invariant (I := fun m => m.Calm servers config ∧ m.Mute)
    (fun m mv hm hmv => ?_) ⟨calm_new servers config, mute_new servers config⟩ h
  obtain ⟨hcalm, hmute⟩ := hm.1.prepare hm.2 hmv
  obtain ⟨m', hhush, hgathers⟩ := hcalm.settles
  exact ⟨hcalm.settle, (hmute.hush hhush).gathers hgathers⟩

end Mesh

end RelayMesh
