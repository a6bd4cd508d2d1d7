import RelayMesh.Proofs.Exclusion.Pool
import Mathlib.Algebra.BigOperators.Ring.Finset
import Mathlib.Algebra.Order.BigOperators.Group.Finset
import Mathlib.Logic.Relation

namespace RelayMesh.Exclusion

/-- How many tokens a server holds. -/
def held (x : Exclusion) : Nat := if x.token.isSome then 1 else 0

theorem held_of_some {x : Exclusion} {token : Token} (h : x.token = some token) : x.held = 1 := by
  simp [held, h]

theorem held_of_none {x : Exclusion} (h : x.token = none) : x.held = 0 := by simp [held, h]

@[simp] theorem held_asked (x : Exclusion) : x.asked.held = x.held := rfl

@[simp] theorem held_noted (x : Exclusion) (p : Id) (n : Nat) : (x.noted p n).held = x.held := by
  simp [held]

namespace Pool

variable (servers : Finset Id) (minter : Id) (s : Pool)

/-- How many tokens there are, at servers and on their way. -/
def tokens : Nat := ∑ a ∈ servers, (s.nodes a).held + s.flight.length

/-- There is one token once it has been made, and none before. -/
def Accounted : Prop := s.tokens servers = if (s.nodes minter).minted then 1 else 0

variable {servers} {minter} {s}

theorem tokens_act {a : Id} (ha : a ∈ servers) (x : Exclusion) (sends : List Outgoing) :
    (s.act a (x, sends)).tokens servers + (s.nodes a).held =
      s.tokens servers + x.held + (sends.filterMap Outgoing.addressed?).length := by
  have hrest : ∑ b ∈ servers.erase a, ((s.act a (x, sends)).nodes b).held =
      ∑ b ∈ servers.erase a, (s.nodes b).held :=
    Finset.sum_congr rfl fun b hb => by rw [nodes_act_ne (Finset.ne_of_mem_erase hb)]
  have hnew := Finset.add_sum_erase servers (fun b => ((s.act a (x, sends)).nodes b).held) ha
  have hold := Finset.add_sum_erase servers (fun b => (s.nodes b).held) ha
  have hflight : (s.act a (x, sends)).flight.length =
      s.flight.length + (sends.filterMap Outgoing.addressed?).length := by simp [act]
  simp only [nodes_act_self, hrest] at hnew
  simp only [tokens, hflight]
  omega

theorem minted_act {a b : Id} {x : Exclusion} (h : x.minted = (s.nodes a).minted)
    (sends : List Outgoing) : ((s.act a (x, sends)).nodes b).minted = (s.nodes b).minted := by
  rw [nodes_act]
  split
  next hb => exact hb ▸ h
  next => rfl

theorem held_le_tokens {a : Id} (ha : a ∈ servers) :
    (s.nodes a).held + s.flight.length ≤ s.tokens servers :=
  Nat.add_le_add_right
    (Finset.single_le_sum (f := fun b => (s.nodes b).held) (fun _ _ => Nat.zero_le _) ha) _

theorem held_add_held_le_tokens {a b : Id} (ha : a ∈ servers) (hb : b ∈ servers) (hne : a ≠ b) :
    (s.nodes a).held + (s.nodes b).held ≤ s.tokens servers := by
  have hsum := Finset.add_sum_erase servers (fun c => (s.nodes c).held) ha
  have hle : (s.nodes b).held ≤ ∑ c ∈ servers.erase a, (s.nodes c).held :=
    Finset.single_le_sum (f := fun c => (s.nodes c).held) (fun _ _ => Nat.zero_le _)
      (Finset.mem_erase.2 ⟨hne.symm, hb⟩)
  simp only [tokens]
  omega

theorem Accounted.tokens_le (h : Accounted servers minter s) : s.tokens servers ≤ 1 := by
  unfold Accounted at h
  split at h <;> omega

theorem Accounted.minted_of_pos (h : Accounted servers minter s) (hp : 0 < s.tokens servers) :
    (s.nodes minter).minted = true := by
  by_contra hm
  simp only [Accounted, hm, if_false] at h
  omega

/-- A token on its way is the only one. -/
theorem Accounted.token_eq_none (h : Accounted servers minter s) {a : Id} (ha : a ∈ servers)
    (hf : 0 < s.flight.length) : (s.nodes a).token = none := by
  have hle := (held_le_tokens ha).trans h.tokens_le
  cases ht : (s.nodes a).token with
  | none => rfl
  | some token => rw [held_of_some ht] at hle; omega

/-- The server that holds the token is the only one. -/
theorem Accounted.eq_of_held (h : Accounted servers minter s) {a b : Id} (ha : a ∈ servers)
    (hb : b ∈ servers) (hta : (s.nodes a).token.isSome) (htb : (s.nodes b).token.isSome) :
    a = b := by
  by_contra hne
  have hle := (held_add_held_le_tokens ha hb hne).trans h.tokens_le
  simp [held, hta, htb] at hle

/-- A step that neither makes nor loses a token. -/
theorem Accounted.act (h : Accounted servers minter s) {a : Id} (ha : a ∈ servers) {x : Exclusion}
    {sends : List Outgoing} (hm : x.minted = (s.nodes a).minted)
    (hx : x.held + (sends.filterMap Outgoing.addressed?).length = (s.nodes a).held) :
    Accounted servers minter (s.act a (x, sends)) := by
  have hc := tokens_act (s := s) ha x sends
  unfold Accounted at h ⊢
  rw [minted_act hm]
  omega

theorem Accounted.change (h : Accounted servers minter s) {s' : Pool}
    (c : Change servers minter s s') : Accounted servers minter s' := by
  cases c with
  | ask a ha hp ht => exact h.act ha rfl (by simp)
  | enter a ha hp ht => exact h.act ha rfl (by simp [held])
  | leave a ha hp => exact h.act ha rfl (by simp [held])
  | note a ha msg n hc hs hn news =>
    exact h.act ha (by simp) (by split <;> simp [Outgoing.addressed?])
  | take a ha front back msg n token hf hc =>
    have hn := h.token_eq_none ha (by simp [hf])
    have ht := tokens_act (s := { s with flight := front ++ back }) ha
      ((s.nodes a).accepted token) []
    have hlen : s.tokens servers = tokens servers { s with flight := front ++ back } + 1 := by
      simp only [tokens, hf, List.length_append, List.length_cons]
      omega
    have hm : ((s.nodes a).accepted token).minted = (s.nodes a).minted := rfl
    have hheld : ((s.nodes a).accepted token).held = 1 := held_of_some rfl
    unfold Accounted at h ⊢
    rw [minted_act (s := { s with flight := front ++ back }) hm]
    simp only [hheld, held_of_none hn, List.filterMap_nil, List.length_nil] at ht
    exact ht.trans (hlen ▸ h)
  | mint ha hm =>
    have ht := tokens_act (s := s) ha
      (({ s.nodes minter with minted := true } : Exclusion).accepted .fresh) []
    have hle := held_le_tokens (s := s) ha
    have hheld : (({ s.nodes minter with minted := true } : Exclusion).accepted .fresh).held = 1 :=
      held_of_some rfl
    unfold Accounted at h ⊢
    simp only [hm, Bool.false_eq_true, if_false] at h
    have hnew : (({ s.nodes minter with minted := true } : Exclusion).accepted .fresh).minted = true :=
      rfl
    simp only [nodes_act_self, hnew, if_true]
    simp only [hheld, List.filterMap_nil, List.length_nil] at ht
    omega
  | give a ha token dest hp ht hd => exact h.act ha rfl (by simp [held, ht])

/-- What holds between two events. -/
structure Sound (servers : Finset Id) (minter : Id) (s : Pool) : Prop where
  known : Known servers s
  accounted : Accounted servers minter s
  idle : ∀ a, (s.nodes a).Idle

theorem sound_start : Sound servers minter start where
  known := known_start
  accounted := by simp [Accounted, tokens, start, held]
  idle _ _ _ h := by simp [start] at h

/-- `s'` is reached from `s` by changes, and no idle token is kept from a known request. -/
def Reaches (servers : Finset Id) (minter : Id) (s s' : Pool) : Prop :=
  Relation.ReflTransGen (Change servers minter) s s' ∧ ∀ a, (s'.nodes a).Idle

/-- A change of a server's own state and what it then does with the token, as one step. -/
theorem Sound.settle (h : Sound servers minter s) {t : Pool} {a : Id} (ha : a ∈ servers)
    (ht : ∀ b, b ≠ a → t.nodes b = s.nodes b) {y : Exclusion} {sends : List Outgoing}
    (c : Change servers minter s (t.act a (y, sends))) {r : Exclusion × List Outgoing}
    (hr : y.Settles r) : Reaches servers minter s (t.act a (r.1, sends ++ r.2)) := by
  have rest {x : Exclusion} {sends : List Outgoing} (hx : x.Idle) (b : Id) :
      ((t.act a (x, sends)).nodes b).Idle := by
    rw [nodes_act]
    split
    next => exact hx
    next hb => exact ht b hb ▸ h.idle b
  cases hr with
  | keep hi => exact ⟨.single (by simpa using c), rest hi⟩
  | give token dest hp hto hd =>
    refine ⟨.tail (.single c) ?_, rest fun _ _ h => by simp at h⟩
    have hg : Change servers minter (t.act a (y, sends)) _ :=
      .give a ha token dest (by simpa using hp) (by simpa using hto) (by simpa using hd)
    simpa only [nodes_act_self, act_act] using hg

theorem act_unchanged (a : Id) : s.act a (s.nodes a, []) = s := by simp [act]

theorem Sound.unchanged (h : Sound servers minter s) (a : Id) :
    Reaches servers minter s (s.act a (s.nodes a, [])) := by
  rw [act_unchanged]
  exact ⟨.refl, h.idle⟩

theorem Sound.request (h : Sound servers minter s) {a : Id} (ha : a ∈ servers) :
    Reaches servers minter s (s.act a ((s.nodes a).obey .request)) := by
  by_cases hp : (s.nodes a).phase = .outside
  · cases ht : (s.nodes a).token with
    | some token =>
      have hs : (s.nodes a).token.isSome := by simp [ht]
      rw [obey_request_of_token hp hs]
      exact h.settle ha (fun _ _ => rfl) (.enter a ha hp hs) (.keep fun h => by simp at h)
    | none =>
      rw [obey_request_of_none hp ht]
      exact h.settle ha (fun _ _ => rfl) (.ask a ha hp ht) (.keep fun h => by simp [asked] at h)
  · rw [obey_request_of_phase hp]
    exact h.unchanged a

theorem Sound.release (h : Sound servers minter s) {a : Id} (ha : a ∈ servers) :
    Reaches servers minter s (s.act a ((s.nodes a).obey .release)) := by
  by_cases hp : (s.nodes a).phase = .inside
  · exact h.settle ha (fun _ _ => rfl) (.leave a ha hp) (release_settles hp)
  · rw [obey_release_of_phase hp]
    exact h.unchanged a

theorem Sound.mint (h : Sound servers minter s) (ha : minter ∈ servers) :
    Reaches servers minter s (s.act minter ((s.nodes minter).obey .mint)) := by
  cases hm : (s.nodes minter).minted with
  | true =>
    rw [obey_mint_of_minted hm]
    exact h.unchanged minter
  | false =>
    have ht : (s.nodes minter).token = none := by
      by_contra hne
      obtain ⟨token, ht⟩ := Option.ne_none_iff_exists'.1 hne
      have hle := held_le_tokens (s := s) ha
      rw [held_of_some ht] at hle
      simpa [hm] using h.accounted.minted_of_pos (by omega)
    have hp : (s.nodes minter).phase ≠ .inside := fun hp => by
      simpa [ht] using h.known.inside minter hp
    rw [obey_mint hm]
    exact h.settle ha (fun _ _ => rfl) (.mint ha hm)
      (onToken_settles (x := { s.nodes minter with minted := true }) .fresh ht hp)

theorem Sound.hear (h : Sound servers minter s) {a : Id} (ha : a ∈ servers) {m : Message}
    (hm : m ∈ s.requests) (path : List Id) :
    Reaches servers minter s (s.act a ((s.nodes a).receive { m with path })) := by
  obtain ⟨n, hc, hn⟩ := h.known.flooded m hm
  have hcopy : ({ m with path } : Message).content = .mutexRequest n := hc
  by_cases hs : m.sender = (s.nodes a).own
  · rw [receive_own hcopy hs]
    exact h.unchanged a
  · rw [receive_request hcopy hs]
    have hsa : m.sender ≠ a := fun he => hs (he.trans (h.known.own a).symm)
    exact h.settle ha (fun _ _ => rfl)
      (.note a ha { m with path } n hc hsa hn ((s.nodes a).requestOf m.sender < n))
      (serve_noted_settles (h.idle a) m.sender n)

theorem Sound.take (h : Sound servers minter s) {a : Id} {front back : List (Id × Message)}
    {m : Message} (hf : s.flight = front ++ (a, m) :: back) :
    Reaches servers minter s
      ({ s with flight := front ++ back }.act a ((s.nodes a).receive m)) := by
  obtain ⟨ha, n, token, hc⟩ := h.known.flight (a, m) (by simp [hf])
  have ht := h.accounted.token_eq_none ha (by simp [hf])
  have hp : (s.nodes a).phase ≠ .inside := fun hp => by simpa [ht] using h.known.inside a hp
  rw [receive_token hc]
  exact h.settle (t := { s with flight := front ++ back }) ha (fun _ _ => rfl)
    (.take a ha front back m n token hf hc) (onToken_settles token ht hp)

/-- Every event is a chain of changes. -/
theorem Sound.reaches_step (h : Sound servers minter s) (e : Event) :
    Reaches servers minter s (s.step servers minter e) := by
  have nothing : Reaches servers minter s s := ⟨.refl, h.idle⟩
  cases e with
  | command a what =>
    simp only [step]
    split
    next hc =>
      cases what with
      | request => exact h.request hc.1
      | release => exact h.release hc.1
      | mint =>
        obtain rfl := hc.2 rfl
        exact h.mint hc.1
    next => exact nothing
  | hear a place path =>
    simp only [step]
    split
    next => exact nothing
    next m hm =>
      split
      next ha => exact h.hear ha (List.mem_of_getElem? hm) path
      next => exact nothing
  | take place =>
    simp only [step]
    split
    next => exact nothing
    next dest m hm =>
      rw [List.eraseIdx_eq_take_drop_succ]
      refine h.take ?_
      obtain ⟨hlt, he⟩ := List.getElem?_eq_some_iff.1 hm
      rw [← he]
      simp

/-- What every change keeps holds of all that is reached. -/
theorem Sound.keeps (h : Sound servers minter s) {J : Pool → Prop} (hj : J s)
    (change : ∀ t t', Known servers t → Accounted servers minter t → J t →
      Change servers minter t t' → J t')
    {s' : Pool} (hr : Reaches servers minter s s') : Sound servers minter s' ∧ J s' := by
  suffices key : ∀ t, Relation.ReflTransGen (Change servers minter) s t →
      Known servers t ∧ Accounted servers minter t ∧ J t by
    obtain ⟨hk, hacc, hj⟩ := key s' hr.1
    exact ⟨⟨hk, hacc, hr.2⟩, hj⟩
  intro t ht
  induction ht with
  | refl => exact ⟨h.known, h.accounted, hj⟩
  | tail _ c ih => exact ⟨ih.1.change c, ih.2.1.change c, change _ _ ih.1 ih.2.1 ih.2.2 c⟩

/-- What holds at the start and is kept by every change holds after every run. -/
theorem run_invariant {J : Pool → Prop} (hj : J start)
    (change : ∀ t t', Known servers t → Accounted servers minter t → J t →
      Change servers minter t t' → J t')
    (events : List Event) :
    Sound servers minter (run servers minter events) ∧ J (run servers minter events) := by
  suffices key : ∀ s, Sound servers minter s ∧ J s →
      Sound servers minter (events.foldl (step servers minter) s) ∧
        J (events.foldl (step servers minter) s) from key _ ⟨sound_start, hj⟩
  induction events with
  | nil => exact fun _ h => h
  | cons e events ih => exact fun s h => ih _ (h.1.keeps h.2 change (h.1.reaches_step e))

theorem run_sound (events : List Event) : Sound servers minter (run servers minter events) :=
  (run_invariant (J := fun _ => True) trivial (fun _ _ _ _ _ _ => trivial) events).1

/-- At most one token exists, a server is inside only with it and waits only without it, and so at
most one server is inside. -/
theorem atMostOne_inside (servers : Finset Id) (minter : Id) (events : List Event) :
    let s := run servers minter events
    (servers.filter fun a => (s.nodes a).token.isSome).card + s.flight.length ≤ 1 ∧
    (∀ a ∈ servers, (s.nodes a).phase = .inside → (s.nodes a).token.isSome) ∧
    (∀ a ∈ servers, (s.nodes a).phase = .waiting → (s.nodes a).token = none) ∧
    (∀ a ∈ servers, ∀ b ∈ servers,
      (s.nodes a).phase = .inside → (s.nodes b).phase = .inside → a = b) := by
  intro s
  have h : Sound servers minter s := run_sound events
  refine ⟨?_, fun a _ => h.known.inside a, fun a _ => h.known.waiting a, fun a ha b hb hia hib => ?_⟩
  · have hle := h.accounted.tokens_le
    simpa only [Finset.card_filter, tokens, held] using hle
  · exact h.accounted.eq_of_held ha hb (h.known.inside a hia) (h.known.inside b hib)

end Pool

end RelayMesh.Exclusion
