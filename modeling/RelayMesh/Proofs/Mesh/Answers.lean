import RelayMesh.Proofs.Mesh.Discovery
import RelayMesh.Proofs.Mesh.Forwarding
import RelayMesh.Proofs.Mesh.Guidance

namespace RelayMesh

/-- What the server `a` sends to `d` when its route to `d` is new or shorter. -/
def Message.answer (a d : Id) : Message := ⟨a, [], some d, .identity⟩

namespace Server

variable {s : Server} {msg : Message} {dest : Id} {link : LinkId} {route : Route} {f : Frame}

/-- Every listed server gets its answer, if there is space for it. -/
theorem mem_waiting_announceEach {learned : List Id} (hd : dest ∈ learned) (hid : dest ≠ s.identity)
    (hroute : s.routes.get? dest = some route)
    (hf : s.frame MessageType.identity ((Message.answer s.identity dest).appendToPath s.identity) =
      .ok f) (hs : (learned.foldl announceTo s).outbox.HasSpace route.link) :
    f ∈ (learned.foldl announceTo s).outbox.waiting route.link := by
  induction learned generalizing s with
  | nil => exact absurd hd List.not_mem_nil
  | cons first learned ih =>
    rw [List.foldl_cons] at hs ⊢
    have hrest : (s.announceTo first).Sends none (learned.foldl announceTo (s.announceTo first)) :=
      (acts_announceEach (fun _ h => h.stems none) _ _).sends
    rcases List.mem_cons.1 hd with rfl | hd
    · exact hrest.outbox.mem_waiting
        (mem_waiting_carryOut hid hroute hf (hrest.outbox.hasSpace hs))
    · obtain ⟨outbox, hsent⟩ : ∃ outbox, s.announceTo first = { s with outbox } :=
        s.exists_carryOut _
      rw [hsent] at hs ⊢
      exact ih hd hid hroute hf hs

theorem mem_waiting_learnRoutes (hd : dest ∈ (s.routes.learn msg.path link).2)
    (hid : dest ≠ s.identity) (hroute : (s.routes.learn msg.path link).1.get? dest = some route)
    (hf : s.frame MessageType.identity ((Message.answer s.identity dest).appendToPath s.identity) =
      .ok f) (hs : (s.learnRoutes msg link).outbox.HasSpace route.link) :
    f ∈ (s.learnRoutes msg link).outbox.waiting route.link := by
  have hsame : s.learnRoutes msg link = (s.routes.learn msg.path link).2.foldl announceTo
    { s with routes := (s.routes.learn msg.path link).1 } := rfl
  rw [hsame] at hs ⊢
  exact mem_waiting_announceEach hd hid hroute hf hs

end Server

namespace Mesh

/-- An announcement fits a frame, whomever it is for, as long as it has been to no server more than
twice. -/
def Ample (servers : List Id) (config : Config) : Prop :=
  ∀ a path dest, path ⊆ servers → (∀ x, path.count x ≤ 2) →
    (Wire.encodeMessage ⟨a, path, dest, .identity⟩).length ≤ config.maxMessageSize.toNat

/-- An answer of `a` to `d` is on its way, along a route of `k` hops. -/
def Answers (m : Mesh) (a d : Id) (k : Nat) : Prop :=
  ∃ via t, m.Pending t ∧ m.Underway a d k MessageType.identity (.answer a d) via t

/-- Where a route leads, the way back is known to be as short, or an answer is on its way there. -/
def Answered (m : Mesh) : Prop := ∀ a d k, m.Hops a d k → m.Knows d a k ∨ m.Answers a d k

variable {m m' : Mesh} {a b d : Id} {k place : Nat} {st : Station} {t : Transit} {line : Line}
  {msg : Message} {servers via path : List Id} {config : Config}

theorem Ample.sized (h : Ample servers config) : Sized servers config := fun d path _ hnodup hsub =>
  h d path none hsub fun x => (List.nodup_iff_count_le_one.1 hnodup x).trans (Nat.le_succ 1)

theorem KeepsRoutes.hops (h : m.KeepsRoutes m') (hk : m'.Hops a d k) : m.Hops a d k := by
  obtain ⟨st', next, link, hs', hget⟩ := hk
  obtain ⟨st, hs, -, hroutes⟩ := h a st' hs'
  exact ⟨st, next, link, hs, hroutes d k next link hget⟩

theorem Sane.ne_of_hops (h : m.Sane) (hk : m.Hops a d k) : a ≠ d := by
  obtain ⟨st, next, link, hs, hget⟩ := hk
  rintro rfl
  rw [(h.wired a st hs).noSelf] at hget
  cases hget

theorem Sound.erase (h : m.Sound) (place : Nat) :
    ({ m with wire := m.wire.eraseIdx place } : Mesh).Sound :=
  h.refile rfl (fun _ ht => List.mem_of_mem_eraseIdx ht) h.waiting

/-- An overlay that has grown has the answers still that it had. -/
theorem Answered.mono (h : m.Answered) (hs : m'.Sound) (he : m.Extends m')
    (hp : ∀ t, m.Pending t → m'.Pending t)
    (hr : ∀ a d k, m'.Hops a d k → m.Hops a d k ∨ m'.Knows d a k) : m'.Answered := by
  intro a d k hk
  rcases hr a d k hk with hold | hback
  · refine (h a d k hold).imp (he.knows d a k) ?_
    rintro ⟨via, t, ht, hway⟩
    exact ⟨via, t, hp t ht, hway.mono hs he⟩
  · exact .inl hback

theorem Answered.settle (h : m.Answered) (hc : m.Calm servers config) (hs : m.Sound) :
    m.settle.1.Answered :=
  h.mono hs.settle hs.toSane.settle.extended (fun _ => hs.toSane.pending_settle)
    fun _ _ _ hk => .inl (hc.alike_settle.keepsRoutes.hops hk)

/-- The path of a message that may go on, with the server that it has come to. -/
theorem Ready.frame (h : m.Ready b msg) (hc : m.Calm servers config) (ha : Ample servers config)
    (hb : (m.station? b).isSome) (a : Id) (dest : Option Id) :
    (Wire.encodeMessage ⟨a, msg.path ++ [b], dest, .identity⟩).length ≤
      config.maxMessageSize.toNat := by
  refine ha a _ dest (fun x hx => ?_) h.trail.count
  obtain ⟨i, hi⟩ := List.mem_iff_getElem?.1 (List.mem_reverse.2 hx)
  obtain ⟨w, -⟩ := (h.trail.ways i x hi).walk
  exact (hc.members x).1 (hc.toSane.isSome_of_walk hb w)

/-- An answer that arrives at another server than its destination goes on. -/
theorem Underway.answers_deliver
    (h : m.Underway a d k MessageType.identity (.answer a d) via t) (hc : m.Calm servers config)
    (ha : Ample servers config) (hroom : HasRoom t) (hd : t.target ≠ d)
    (hroomy : (m.deliver t).Roomy) : (m.deliver t).Answers a d k := by
  obtain ⟨st, hs, -⟩ := linked_iff.1 (h.sound.adj_iff.1 h.adj.symm)
  obtain ⟨line, hh⟩ := h.handles trivial hs (hc.up _ st hs)
  obtain ⟨hlearned, hready⟩ := h.sound.handle h.traced hroom hh
  have htaught : (m.set t.target (st.taught (a :: via) line.link)).Calm servers config :=
    hc.still hlearned.toSane (still_set hs rfl)
  have hle := hready.frame htaught ha (by rw [station?_set_self]; rfl) a (some d)
  obtain ⟨f, hf⟩ := hc.frame_of_le hs hle MessageType.identity
  obtain ⟨next, -, hnext, hpending⟩ := h.passes rfl (by decide) hroom hh hd.symm hf
  exact ⟨_, _, (hpending hroomy).2, hnext⟩

/-- Where an answer was to go, the way that it has come is known. -/
theorem Underway.knows_deliver
    (h : m.Underway a d k MessageType.identity (.answer a d) via t) (hc : m.Calm servers config)
    (hroom : HasRoom t) (hd : t.target = d) (hne : a ≠ d) : (m.deliver t).Knows d a k := by
  subst hd
  obtain ⟨st, hs, -⟩ := linked_iff.1 (h.sound.adj_iff.1 h.adj.symm)
  obtain ⟨line, hh⟩ := h.handles trivial hs (hc.up _ st hs)
  obtain ⟨-, hready⟩ := h.sound.handle h.traced hroom hh
  have hplace : (a :: via ++ [t.target]).reverse[via.length + 1]? = some a := by simp
  have hknows := (hready.trail.ways (via.length + 1) a hplace).knows.resolve_left hne
  exact (hh.grown h.sound.toSane).2.extended.knows _ _ _ (hknows.mono h.short)

/-- A route that has changed is one that the server has learned. -/
theorem Handles.hops_cases (hh : m.Handles t st line msg) (hc : m.Calm servers config)
    (hk : (m.deliver t).Hops a d k) : m.Hops a d k ∨ a = t.target ∧
      d ∈ (st.server.routes.learn msg.path line.link).2 ∧
        (m.set t.target (st.taught msg.path line.link)).Hops t.target d k := by
  have hbefore := (hh.posts_deliver hc).alike.keepsRoutes.hops hk
  obtain ⟨st', next, link, hs', hget⟩ := hbefore
  rw [station?_set] at hs'
  split at hs'
  next hat =>
    obtain rfl := Option.some.inj hs'
    rcases Routes.mem_learn st.server.routes msg.path line.link d with hsame | hmem
    · exact .inl ⟨st, next, link, hat ▸ hh.station, hsame.symm.trans hget⟩
    · exact .inr ⟨hat, hmem, _, next, link, station?_set_self, hget⟩
  next => exact .inl ⟨st', next, link, hs', hget⟩

/-- A server that learns a route answers. -/
theorem Handles.answers (hh : m.Handles t st line msg) (hc : m.Calm servers config) (hs : m.Sound)
    (ha : Ample servers config) (ht : m.Traced t) (hroom : HasRoom t)
    (hroomy : (m.deliver t).Roomy) (hd : d ∈ (st.server.routes.learn msg.path line.link).2)
    (hk : (m.set t.target (st.taught msg.path line.link)).Hops t.target d k) :
    (m.deliver t).Answers t.target d k := by
  obtain ⟨hlearned, -⟩ := hs.handle ht hroom hh
  have hne := hlearned.toSane.ne_of_hops hk
  obtain ⟨st', next, link, hs', hget⟩ := hk
  obtain rfl : st.taught msg.path line.link = st' :=
    Option.some.inj (station?_set_self.symm.trans hs')
  obtain ⟨⟨other, ho, hpeer, rfl⟩, -⟩ := hlearned.routes _ _ d k next link hs' hget
  have happend : (Message.answer t.target d).appendToPath t.target =
      ⟨t.target, [t.target], some d, .identity⟩ := if_pos Nat.two_pos
  have hle : (Wire.encodeMessage ((Message.answer t.target d).appendToPath t.target)).length ≤
      config.maxMessageSize.toNat := by
    rw [happend]
    refine ha _ _ _ (fun x hx => ?_) fun x => List.count_le_length.trans (Nat.le_succ 1)
    rw [List.mem_singleton.1 hx, ← hc.members, hh.station]
    rfl
  obtain ⟨f, hf⟩ := hc.frame_of_le hh.station hle MessageType.identity
  have hid := (hc.wired _ st hh.station).identity
  have hsends := Server.sends_dispatch m.hooks (st.server.learnRoutes msg line.link) t.frame.type msg
  have hway : (m.set t.target (st.taught msg.path line.link)).Underway t.target d k
      MessageType.identity (.answer t.target d) [] ⟨t.target, next, f⟩ :=
    hlearned.underway hs' hget rfl hf
  refine ⟨[], _, ?_, hway.mono (hs.deliver ht hroom) (hh.grown hc.toSane).2.extended⟩
  rw [hh.deliver_calm hc] at hroomy ⊢
  have hspace := hroomy.hasSpace station?_set_self ho (by simp [hpeer])
  have hwaits := Server.mem_waiting_learnRoutes hd (by rw [hid]; exact hne.symm) hget
    (by rw [hid]; exact hf) (hsends.outbox.hasSpace hspace)
  exact .inr ⟨_, station?_set_self, other, ho, hpeer, hsends.outbox.mem_waiting hwaits⟩

/-- After a frame has arrived, an answer is on its way still, unless this was the frame that it was in
and the server that it is for. -/
theorem Answers.deliver (h : m.Answers a d k) (hc : m.Calm servers config) (hs : m.Sound)
    (ha : Ample servers config) (ht : m.wire[place]? = some t) (hroom : HasRoom t)
    (hroomy : (m.effect (.deliver place)).Roomy) :
    (m.effect (.deliver place)).Answers a d k ∨ t.target = d ∧ ∃ via,
      ({ m with wire := m.wire.eraseIdx place } : Mesh).Underway a d k MessageType.identity
        (.answer a d) via t := by
  have hgone : m.Extends { m with wire := m.wire.eraseIdx place } := extends_of_stations rfl
  have hcalm := hc.erase place
  rw [effect_deliver ht] at hroomy ⊢
  obtain ⟨via, t', ht', hway⟩ := h
  have herased := hway.erase place
  by_cases hsame : t' = t
  · subst hsame
    by_cases hd : t'.target = d
    · exact .inr ⟨hd, via, herased⟩
    · exact .inl (herased.answers_deliver hcalm ha hroom hd hroomy)
  · have htraced := (hs.pending t (.inl (List.mem_of_getElem? ht))).mono hgone
    have hdelivered := (hs.erase place).deliver htraced hroom
    exact .inl ⟨via, t', hcalm.pending_deliver (pending_erase ht ht' hsame),
      herased.mono hdelivered (hcalm.toSane.deliver t).extended⟩

/-- A server whose route is new or shorter when a frame has arrived answers. -/
theorem Sound.hops_deliver (hs : m.Sound) (hc : m.Calm servers config) (ha : Ample servers config)
    (ht : m.wire[place]? = some t) (hroom : HasRoom t)
    (hroomy : (m.effect (.deliver place)).Roomy) (hk : (m.effect (.deliver place)).Hops a d k) :
    m.Hops a d k ∨ (m.effect (.deliver place)).Answers a d k := by
  have hcalm := hc.erase place
  rw [effect_deliver ht] at hroomy hk ⊢
  rcases hcalm.toSane.deliver_cases t with hsame | ⟨st, line, msg, hh⟩
  · exact .inl (by rwa [hsame] at hk)
  · rcases hh.hops_cases hcalm hk with hbefore | ⟨rfl, hd, hnew⟩
    · exact .inl hbefore
    · have hextends : m.Extends { m with wire := m.wire.eraseIdx place } :=
        extends_of_stations rfl
      have htraced := (hs.pending t (.inl (List.mem_of_getElem? ht))).mono hextends
      exact .inr (hh.answers hcalm (hs.erase place) ha htraced hroom hroomy hd hnew)

/-- A frame that arrives leaves no route unanswered. -/
theorem Answered.deliver (h : m.Answered) (hc : m.Calm servers config) (hs : m.Sound)
    (ha : Ample servers config) (ho : m.Onward (.deliver place))
    (hroomy : (m.effect (.deliver place)).Roomy) : (m.effect (.deliver place)).Answered := by
  cases ht : m.wire[place]? with
  | none => rwa [effect_deliver_none ht]
  | some t =>
    intro a d k hk
    have hroom := hasRoom_of_onward ht ho
    have hextended : m.Extends (m.effect (.deliver place)) := by
      rw [effect_deliver ht]
      have hgone : m.Extends { m with wire := m.wire.eraseIdx place } := extends_of_stations rfl
      exact hgone.trans ((hc.erase place).toSane.deliver t).extended
    rcases hs.hops_deliver hc ha ht hroom hroomy hk with hold | hanswer
    · rcases h a d k hold with hknows | hanswer
      · exact .inl (hextended.knows _ _ _ hknows)
      · rcases hanswer.deliver hc hs ha ht hroom hroomy with hon | ⟨hd, via, hway⟩
        · exact .inr hon
        · rw [effect_deliver ht]
          exact .inl (hway.knows_deliver (hc.erase place) hroom hd (hs.toSane.ne_of_hops hold))
    · exact .inr hanswer

theorem Sane.knows_of_linked (h : m.Sane) (hl : m.Linked a b) : m.Knows a b 1 := by
  obtain ⟨st, hs, line, hline, hpeer⟩ := linked_iff.1 hl
  exact ⟨st, hs, 1, b, line.link, (h.wired a st hs).direct line hline b hpeer, Nat.le_refl 1⟩

/-- Servers that get connected know each other at once. -/
theorem Answered.join (h : m.Answered) (hs : m.Sound) {sa sb : Station}
    (hab : m.Strangers a b sa sb) : (m.join a b).Answered := by
  have hjoin : Turn HasRoom m (m.join a b) := .join hab
  have hgrown := hs.toSane.join hab
  refine h.mono (hs.turn hjoin) hgrown.extended (fun _ => hs.toSane.pending_turn (.join hab))
    fun c d k hk => ?_
  obtain ⟨st', next, link, hs', hget⟩ := hk
  rcases hab.cases hs' with ⟨st, e, hst, rfl, -, -⟩ | hst
  · rw [Station.get?_joined] at hget
    split at hget
    next hd =>
      cases hget
      obtain ⟨rfl, -⟩ := hd
      have hlinked : (m.join a b).Linked c d :=
        linked_iff.2 ⟨_, hs', _, Station.mem_joined.2 (.inr rfl), rfl⟩
      exact .inr (hgrown.sane.knows_of_linked (hgrown.sane.symm c d hlinked))
    next => exact .inl ⟨st, next, link, hst, hget⟩
  · exact .inl ⟨st', next, link, hst, hget⟩

/-- At rest, two servers know each other to be equally far. -/
theorem Answered.hops_back (h : m.Answered) (hrest : m.AtRest) (hk : m.Hops a d k) :
    m.Hops d a k := by
  have back : ∀ {a d k}, m.Hops a d k → ∃ j, m.Hops d a j ∧ j ≤ k := fun hk => by
    rcases h _ _ _ hk with hknows | ⟨via, t, ht, -⟩
    · exact hknows.hops
    · exact absurd ht (hrest.not_pending t)
  obtain ⟨j, hj, hjk⟩ := back hk
  obtain ⟨i, hi, hij⟩ := back hj
  obtain rfl : i = k := hi.unique hk
  exact Nat.le_antisymm hjk hij ▸ hj

end Mesh

end RelayMesh
