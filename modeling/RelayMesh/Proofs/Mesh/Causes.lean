import RelayMesh.Proofs.Mesh.Sound

namespace RelayMesh

namespace Mesh

/-- What a turn starts with: the message that has come to a server, if any, and the state once the
routes have changed. -/
inductive Cause (ok : Transit → Prop) (m : Mesh) : Option (Id × Message) → Mesh → Prop
  | own : Cause ok m none m
  | join {a b : Id} {sa sb : Station} (hab : m.Strangers a b sa sb) : Cause ok m none (m.join a b)
  /-- A server gets a message that was kept back. -/
  | give {w : Withheld} (hw : w ∈ m.waiting) : Cause ok m (some (w.interceptor.owner, w.msg)) m
  /-- A server learns from a message that arrives. -/
  | hear {t : Transit} {st : Station} {line : Line} {msg : Message} (ht : t ∈ m.wire) (hok : ok t)
      (hh : m.Handles t st line msg) :
      Cause ok m (some (t.target, msg)) (m.set t.target (st.taught msg.path line.link))

/-- From `m₁` on routes stay, and what is new on its way goes back to `came`. -/
structure Turned (ok : Transit → Prop) (m m' : Mesh) (came : Option (Id × Message)) (m₁ : Mesh) :
    Prop where
  cause : Cause ok m came m₁
  grown : m.Grown m₁
  grows : m₁.Grown m'
  routes : m₁.KeepsRoutes m'
  members : ∀ id, (m'.station? id).isSome ↔ (m.station? id).isSome
  pending : ∀ t, m'.Pending t → m.Pending t ∨ m'.Linked t.source t.target ∧ ∃ c msg,
    (∀ old ∈ c, came = some (t.source, old)) ∧ Message.Stems c msg ∧
      t.frame.Carries (msg.appendToPath t.source)
  waiting : ∀ w ∈ m'.waiting, w ∈ m.waiting ∨ came = some (w.interceptor.owner, w.msg)

variable {m m' : Mesh} {ok : Transit → Prop} {ready : Id → Message → Prop} {t : Transit} {id : Id}
  {st st' : Station}

theorem grown_refl (h : m.Sane) : m.Grown m := ⟨h, m.extends_refl⟩

/-- A frame that servers have just written goes to a neighbour. -/
theorem Sane.pending_posts (h : m.Sane) (hp : Posts ready m m') (ht : m'.Pending t) :
    m.Pending t ∨ m'.Linked t.source t.target ∧ ∃ c msg, (∀ old ∈ c, ready t.source old) ∧
      Message.Stems c msg ∧ t.frame.Carries (msg.appendToPath t.source) := by
  rcases hp.pending ht with hold | ⟨st, line, c, hs, hl, hpeer, hready, hwrites⟩
  · exact .inl hold
  · have hwired := h.wired _ st hs
    rcases hwrites with ⟨client, hc⟩ | ⟨msg, hstems, hcarries⟩
    · have hnone := (hwired.clients client line.link hc).2 line hl rfl
      rw [hpeer] at hnone
      cases hnone
    · rw [hwired.identity] at hcarries
      exact .inr ⟨hp.alike.extended.linked _ _ (linked_iff.2 ⟨st, hs, line, hl, hpeer⟩),
        c, msg, hready, hstems, hcarries⟩

theorem Alike.isSome_iff (h : m.Alike m') : (m'.station? id).isSome ↔ (m.station? id).isSome :=
  ⟨h.symm.isSome, h.isSome⟩

theorem isSome_set (hs : m.station? id = some st) {other : Id} :
    ((m.set id st').station? other).isSome ↔ (m.station? other).isSome := by
  rw [station?_set]
  split
  next he => simp [he, hs]
  next => rfl

theorem keepsRoutes_refl (m : Mesh) : m.KeepsRoutes m := m.alike_refl.keepsRoutes

/-- One station changes on its own, keeps its routes and sends nothing. -/
theorem Sane.turned_set (h : m.Sane) (hs : m.station? id = some st) (hg : m.Grown (m.set id st'))
    (hl : ∀ line ∈ st.lines, line ∈ st'.lines)
    (hr : ∀ d hops next link, st'.server.routes.get? d = some ⟨.server hops next, link⟩ →
      st.server.routes.get? d = some ⟨.server hops next, link⟩)
    (hq : ∀ b f, st'.Queues b f → st.Queues b f) : Turned ok m (m.set id st') none m where
  cause := .own
  grown := grown_refl h
  grows := hg
  routes := keepsRoutes_set hs hl hr
  members _ := isSome_set hs
  pending _ ht := .inl (pending_of_pending_set hs ht hq)
  waiting _ hw := .inl hw

/-- Nothing changes but the wire and what is kept back. -/
theorem Sane.turned_refile (h : m.Sane) (hs : m'.stations = m.stations)
    (hwire : ∀ t ∈ m'.wire, t ∈ m.wire) (hw : ∀ w ∈ m'.waiting, w ∈ m.waiting) :
    Turned ok m m' none m where
  cause := .own
  grown := grown_refl h
  grows := h.alike (alike_of_stations hs)
  routes := (alike_of_stations hs).keepsRoutes
  members _ := (alike_of_stations hs).isSome_iff
  pending t ht := by
    rcases ht with ht | ⟨st, hs', hq⟩
    · exact .inl (.inl (hwire t ht))
    · exact .inl (.inr ⟨st, by unfold station? at hs' ⊢; rwa [← hs], hq⟩)
  waiting w hwm := .inl (hw w hwm)

/-- A server learns from a message that arrives, and then it sends. -/
theorem Handles.turned {place : Nat} {line : Line} {msg : Message} (hh : m.Handles t st line msg)
    (h : m.Sane) (ht : m.wire[place]? = some t) (hok : ok t) :
    Turned ok m (({ m with wire := m.wire.eraseIdx place } : Mesh).deliver t)
      (some (t.target, msg)) (m.set t.target (st.taught msg.path line.link)) := by
  have hgone : m.Grown { m with wire := m.wire.eraseIdx place } := h.alike (alike_of_stations rfl)
  have hh' : ({ m with wire := m.wire.eraseIdx place } : Mesh).Handles t st line msg :=
    ⟨hh.station, hh.mem, hh.peer, hh.up, hh.read⟩
  have hgrown := (hh.grown h).1
  have hself : (m.set t.target (st.taught msg.path line.link)).station? t.target =
    some (st.taught msg.path line.link) := station?_set_self
  have hposts := posts_set (fun id old => some (t.target, msg) = some (id, old)) hself
    ((st.taught msg.path line.link).posts_of_sends (by rintro _ ⟨⟩; rfl)
      (st.sends_taught m.hooks t.frame.type msg line.link))
  rw [set_set] at hposts
  have hdelivered := hh'.deliver hgone.sane
  have hstations : (({ m with wire := m.wire.eraseIdx place } : Mesh).deliver t).stations =
      (m.set t.target { st with server := ((st.server.learnRoutes msg line.link).dispatch m.hooks
        t.frame.type msg).1 }).stations := by
    rw [hdelivered]
    rfl
  have halike := hposts.alike.trans (alike_of_stations hstations)
  refine ⟨.hear (List.mem_of_getElem? ht) hok hh, hgrown, hgrown.sane.alike halike,
    halike.keepsRoutes, fun _ => halike.isSome_iff.trans (isSome_set hh.station),
    fun t' ht' => ?_, fun w hw => ?_⟩
  · have hsent : (m.set t.target { st with server := ((st.server.learnRoutes msg
        line.link).dispatch m.hooks t.frame.type msg).1 }).Pending t' := by
      rw [hdelivered] at ht'
      rcases ht' with hwire | hqueue
      · exact .inl (List.mem_of_mem_eraseIdx hwire)
      · exact .inr hqueue
    rcases hgrown.sane.pending_posts hposts hsent with hold | ⟨hlinked, hnew⟩
    · exact .inl (pending_of_pending_set hh.station hold fun _ _ hq => hq)
    · exact .inr ⟨(alike_of_stations hstations).extended.linked _ _ hlinked, hnew⟩
  · rw [hdelivered] at hw
    rcases List.mem_append.1 hw with hold | hkept
    · exact .inl hold
    · obtain ⟨hmsg, howner⟩ := Server.withheld_dispatch (Option.mem_toList.1 hkept)
      rw [Server.identity_learnRoutes, (h.wired _ st hh.station).identity] at howner
      exact .inr (by rw [hmsg, howner])

theorem Sane.turned_deliver (h : m.Sane) {place : Nat} (ht : m.wire[place]? = some t) (hok : ok t) :
    ∃ came m₁, Turned ok m (({ m with wire := m.wire.eraseIdx place } : Mesh).deliver t) came m₁ := by
  have hgone : m.Grown { m with wire := m.wire.eraseIdx place } := h.alike (alike_of_stations rfl)
  rcases hgone.sane.deliver_cases t with hsame | ⟨st, line, msg, hh⟩
  · rw [hsame]
    exact ⟨none, m, h.turned_refile rfl (fun _ ht => List.mem_of_mem_eraseIdx ht) fun _ hw => hw⟩
  · have hh' : m.Handles t st line msg := ⟨hh.station, hh.mem, hh.peer, hh.up, hh.read⟩
    exact ⟨_, _, hh'.turned h ht hok⟩

/-- Every turn starts with something that is learned, joined or neither, and then servers send. -/
theorem Sane.turned (h : m.Sane) (ht : Turn ok m m') : ∃ came m₁, Turned ok m m' came m₁ := by
  cases ht with
  | send hp hw _ =>
    refine ⟨none, m, .own, grown_refl h, h.alike hp.alike, hp.alike.keepsRoutes,
      fun _ => hp.alike.isSome_iff, fun t ht => ?_, fun w hwm => .inl (hw ▸ hwm)⟩
    rcases h.pending_posts hp ht with hold | ⟨hlinked, c, msg, hready, hnew⟩
    · exact .inl hold
    · exact .inr ⟨hlinked, c, msg, fun old hc => (hready old hc).elim, hnew⟩
  | collect hc =>
    exact ⟨none, m, .own, grown_refl h, h.alike hc.alike, hc.alike.keepsRoutes,
      fun _ => hc.alike.isSome_iff, fun t ht => .inl ((hc.pending t).1 ht), fun w hw => .inl (hc.waiting ▸ hw)⟩
  | shutdown hs =>
    exact ⟨none, m, h.turned_set hs (h.shutdown hs) (fun _ hl => hl) (fun _ _ _ _ hr => hr)
      fun _ _ hq => hq⟩
  | connect hs label capacity held =>
    exact ⟨none, m, h.turned_set hs (h.connect hs label capacity held)
      (fun _ hl => Station.mem_connect.2 (.inl hl)) (fun _ _ _ _ hr => hr)
      fun _ _ => Station.queues_of_queues_connect⟩
  | client hs hc hnew hlink hpeer =>
    refine ⟨none, m, h.turned_set hs (h.addClient hs hc hnew hlink hpeer) (fun _ hl => hl)
      (fun d hops next edge hget => ?_) fun _ _ hq => hq⟩
    rw [Station.get?_addClient] at hget
    split at hget
    · simp at hget
    · exact hget
  | @join a b sa sb hab =>
    have hgrown := h.join hab
    refine ⟨none, _, .join hab, hgrown, grown_refl hgrown.sane, keepsRoutes_refl _,
      fun _ => hab.isSome, fun t ht => .inl (hab.pending_of_join ht),
      fun w hw => .inl (by simpa [Mesh.join, joinOneWay] using hw)⟩
  | enable hooks =>
    exact ⟨none, m, h.turned_refile rfl (fun _ ht => ht) fun _ hw => hw⟩
  | @give w hw p =>
    have herased : m.Grown { m with waiting := m.waiting.eraseP p } :=
      h.alike (alike_of_stations rfl)
    have hposts := posts_release (fun id old => some (w.interceptor.owner, w.msg) = some (id, old))
      { m with waiting := m.waiting.eraseP p } w rfl
    have hsame : m.Alike { m with waiting := m.waiting.eraseP p } := alike_of_stations rfl
    have halike := hsame.trans hposts.alike
    refine ⟨_, m, .give hw, grown_refl h, h.alike halike, halike.keepsRoutes,
      fun _ => halike.isSome_iff, fun t ht => herased.sane.pending_posts hposts ht, fun v hv => .inl ?_⟩
    rw [updateServer, waiting_update] at hv
    exact List.mem_of_mem_eraseP hv
  | deliver ht hok => exact h.turned_deliver ht hok

end Mesh

end RelayMesh
