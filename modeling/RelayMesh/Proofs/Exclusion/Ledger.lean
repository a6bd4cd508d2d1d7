import RelayMesh.Proofs.Exclusion.Custody

namespace RelayMesh.Exclusion

/-- How many requests of a server wait for the token. -/
def pending (x : Exclusion) : Nat := if x.phase = .waiting then 1 else 0

@[simp] theorem pending_asked (x : Exclusion) : x.asked.pending = 1 := rfl

@[simp] theorem pending_noted (x : Exclusion) (p : Id) (n : Nat) :
    (x.noted p n).pending = x.pending := by simp [pending]

theorem pending_of_phase {x : Exclusion} (h : x.phase ≠ .waiting) : x.pending = 0 := by
  simp [pending, h]

namespace Pool

/-- The token has every request of `p` but the one that waits. -/
def Records (s : Pool) (token : Token) (p : Id) : Prop :=
  token.entry p + (s.nodes p).pending = (s.nodes p).number

structure Ledger (minter : Id) (s : Pool) : Prop where
  flight : ∀ f ∈ s.flight, ∀ n token, f.2.content = .mutexToken n token →
    (s.nodes f.1).phase = .waiting ∧ ∀ p, s.Records token p
  held : ∀ a token, (s.nodes a).token = some token → ∀ p, p ≠ a → s.Records token p
  unminted : (s.nodes minter).minted = false → ∀ p, (s.nodes p).pending = (s.nodes p).number

variable {servers : Finset Id} {minter : Id} {s : Pool}

theorem ledger_start : Ledger minter start where
  flight _ h := by simp [start] at h
  held _ _ h := by simp [start] at h
  unminted _ _ := rfl

/-- A step that leaves the token alone keeps the ledger if it counts its request. -/
theorem Ledger.act (h : Ledger minter s) {a : Id} {x : Exclusion} {sends : List Outgoing}
    (token : x.token = (s.nodes a).token) (minted : x.minted = (s.nodes a).minted)
    (count : x.number + (s.nodes a).pending = (s.nodes a).number + x.pending)
    (waits : (s.nodes a).phase = .waiting → x.phase = .waiting)
    (none : sends.filterMap Outgoing.addressed? = []) : Ledger minter (s.act a (x, sends)) := by
  have records {t : Token} {p : Id} (hr : s.Records t p) : (s.act a (x, sends)).Records t p := by
    unfold Records at hr ⊢
    rw [nodes_act]
    split
    next hp => subst hp; dsimp only; omega
    next => exact hr
  constructor
  case flight =>
    intro f hf n t hc
    have hf : f ∈ s.flight := by simpa [Pool.act, none] using hf
    obtain ⟨hw, hr⟩ := h.flight f hf n t hc
    refine ⟨?_, fun p => records (hr p)⟩
    rw [nodes_act]
    split
    next hp => exact waits (hp ▸ hw)
    next => exact hw
  case held =>
    intro b t ht p hp
    refine records (h.held b t ?_ p hp)
    rw [nodes_act] at ht
    split at ht
    next hb => rw [hb, ← token]; exact ht
    next => exact ht
  case unminted =>
    intro hm p
    rw [minted_act minted] at hm
    have hu := h.unminted hm
    rw [nodes_act]
    split
    next => have := hu a; dsimp only; omega
    next => exact hu p

theorem Ledger.take (h : Ledger minter s) (hk : Known servers s) (hacc : Accounted servers minter s)
    {a : Id} (ha : a ∈ servers) {front back : List (Id × Message)} {msg : Message} {n : Nat}
    {token : Token} (hf : s.flight = front ++ (a, msg) :: back)
    (hc : msg.content = .mutexToken n token) :
    Ledger minter ({ s with flight := front ++ back }.act a ((s.nodes a).accepted token, [])) := by
  have hpos : 0 < s.flight.length := by simp [hf]
  have hle := (held_le_tokens ha).trans hacc.tokens_le
  have hmt := hacc.minted_of_pos (hpos.trans_le (Nat.le_add_left _ _))
  obtain ⟨-, hr⟩ := h.flight (a, msg) (by simp [hf]) n token hc
  have others {b : Id} (hb : b ≠ a) (hs : (s.nodes b).token ≠ none) : False := by
    by_cases hbs : b ∈ servers
    · exact hs (hacc.token_eq_none hbs hpos)
    · exact hs (hk.outsider b hbs).1
  constructor
  case flight =>
    intro f hm
    simp only [hf, List.length_append, List.length_cons] at hle
    have hfront : front = [] := List.eq_nil_of_length_eq_zero (by omega)
    have hback : back = [] := List.eq_nil_of_length_eq_zero (by omega)
    simp [Pool.act, hfront, hback] at hm
  case held =>
    intro b t ht p hp
    by_cases hb : b = a
    · subst hb
      obtain rfl : token = t := by simpa [accepted] using ht
      simpa only [Records, nodes_act_ne hp] using hr p
    · have ht : (s.nodes b).token = some t := by rwa [nodes_act_ne hb] at ht
      exact (others hb (by simp [ht])).elim
  case unminted =>
    intro hm
    have hkeep := minted_act (s := { s with flight := front ++ back }) (a := a) (b := minter)
      (x := (s.nodes a).accepted token) rfl []
    simp [hkeep, hmt] at hm

theorem Ledger.give (h : Ledger minter s) (hk : Known servers s) (hacc : Accounted servers minter s)
    {a : Id} (ha : a ∈ servers) {token : Token} {dest : Id} (hp : (s.nodes a).phase = .outside)
    (ht : (s.nodes a).token = some token) (hd : token.entry dest < (s.nodes a).requestOf dest) :
    Ledger minter
      (s.act a ({ s.nodes a with token := none }, [(s.nodes a).handOver dest token])) := by
  have hne : dest ≠ a := fun he => by
    rw [he, hk.self a] at hd
    omega
  have hrec := h.held a token ht
  have hend : (s.nodes a).pending = 0 := pending_of_phase (by simp [hp])
  have hwait : (s.nodes dest).phase = .waiting := by
    have hr := hrec dest hne
    have hb := hk.bound a dest
    by_contra hw
    rw [Records, pending_of_phase hw] at hr
    omega
  have hmt := hacc.minted_of_pos (by
    have hle := held_le_tokens (s := s) ha
    rw [held_of_some ht] at hle
    omega)
  constructor
  case flight =>
    intro f hf n t hc
    rcases List.mem_append.1 hf with hf | hf
    · have := hacc.token_eq_none ha (List.length_pos_of_mem hf)
      simp [ht] at this
    · obtain rfl : f = (dest, (s.nodes a).tokenMessage dest token) := by simpa using hf
      obtain ⟨rfl, rfl⟩ : (s.nodes a).number = n ∧
          token.setEntry (s.nodes a).own (s.nodes a).number = t := by
        simpa [tokenMessage, Message.addressedTo, Message.new] using hc
      refine ⟨by rw [nodes_act_ne hne]; exact hwait, fun p => ?_⟩
      rw [Records, nodes_act, Token.entry_setEntry, hk.own a]
      split
      next => rw [pending] at hend; simp [pending, hend]
      next hpa => exact hrec p hpa
  case held =>
    intro b t hb p hpb
    by_cases hba : b = a
    · simp [hba] at hb
    · rw [nodes_act_ne hba] at hb
      have hbs : b ∈ servers := by
        by_contra hn
        simp [(hk.outsider b hn).1] at hb
      exact absurd (hacc.eq_of_held hbs ha (by simp [hb]) (by simp [ht])) hba
  case unminted =>
    intro hm
    have hkeep := minted_act (s := s) (a := a) (b := minter)
      (x := { s.nodes a with token := none }) rfl [(s.nodes a).handOver dest token]
    simp [hkeep, hmt] at hm

theorem Ledger.mint (h : Ledger minter s) (hk : Known servers s)
    (hacc : Accounted servers minter s) (hm : (s.nodes minter).minted = false) :
    Ledger minter (s.act minter
      (({ s.nodes minter with minted := true } : Exclusion).accepted .fresh, [])) := by
  have hzero : s.tokens servers = 0 := by simpa [Accounted, hm] using hacc
  have nobody (b : Id) : (s.nodes b).token = none := by
    by_cases hb : b ∈ servers
    · by_contra hne
      obtain ⟨token, ht⟩ := Option.ne_none_iff_exists'.1 hne
      have hle := held_le_tokens (s := s) hb
      rw [held_of_some ht] at hle
      omega
    · exact (hk.outsider b hb).1
  have hflight : s.flight = [] := by
    have : s.flight.length ≤ s.tokens servers := Nat.le_add_left _ _
    exact List.eq_nil_of_length_eq_zero (by omega)
  constructor
  case flight => intro f hf; simp [Pool.act, hflight] at hf
  case held =>
    intro b t ht p hp
    by_cases hb : b = minter
    · subst hb
      obtain rfl : Token.fresh = t := by simpa [accepted] using ht
      rw [Records, nodes_act_ne hp, Token.entry_fresh, Nat.zero_add]
      exact h.unminted hm p
    · rw [nodes_act_ne hb, nobody b] at ht
      simp at ht
  case unminted => intro hm'; simp [accepted] at hm'

theorem Ledger.change (h : Ledger minter s) (hk : Known servers s)
    (hacc : Accounted servers minter s) {s' : Pool} (c : Change servers minter s s') :
    Ledger minter s' := by
  cases c with
  | ask a ha hp ht =>
    have hend : (s.nodes a).pending = 0 := pending_of_phase (by simp [hp])
    exact h.act rfl rfl (by simp [hend]) (fun _ => rfl) (by simp)
  | enter a ha hp ht =>
    exact h.act rfl rfl (by simp [pending, hp]) (by simp [hp]) (by simp)
  | leave a ha hp =>
    exact h.act rfl rfl (by simp [pending, hp]) (by simp [hp]) (by simp)
  | note a ha msg n hc hs hn news =>
    exact h.act (by simp) (by simp) (by simp) (by simp) (by split <;> simp [Outgoing.addressed?])
  | take a ha front back msg n token hf hc => exact h.take hk hacc ha hf hc
  | mint ha hm => exact h.mint hk hacc hm
  | give a ha token dest hp ht hd => exact h.give hk hacc ha hp ht hd

theorem run_ledger (servers : Finset Id) (events : List Event) :
    Ledger minter (run servers minter events) :=
  (run_invariant ledger_start (fun _ _ hk hacc h c => h.change hk hacc c) events).2

/-- The server `p` is outside and the token has all its requests, or it waits and the token has all
but the last one. -/
def Exact (s : Pool) (token : Token) (p : Id) : Prop :=
  (s.nodes p).phase = .outside ∧ token.entry p = (s.nodes p).number ∨
    (s.nodes p).phase = .waiting ∧ token.entry p + 1 = (s.nodes p).number

theorem Records.exact {token : Token} {p : Id} (h : s.Records token p)
    (hp : (s.nodes p).phase ≠ .inside) : s.Exact token p := by
  unfold Records at h
  cases hphase : (s.nodes p).phase with
  | outside => exact .inl ⟨hphase, by simpa [pending, hphase] using h⟩
  | waiting => exact .inr ⟨hphase, by simpa [pending, hphase] using h⟩
  | inside => exact absurd hphase hp

/-- A holder that hears of a request of a server that does not wait keeps the token. -/
theorem Sound.keeps_token (h : Sound servers minter s) (hl : Ledger minter s) {a : Id} {m : Message}
    (hm : m ∈ s.requests) (path : List Id) (hw : (s.nodes m.sender).phase ≠ .waiting) :
    ((s.nodes a).receive { m with path }).1.token = (s.nodes a).token ∧
      ((s.nodes a).receive { m with path }).2.filterMap Outgoing.addressed? = [] := by
  obtain ⟨n, hc, hn⟩ := h.known.flooded m hm
  have hcopy : ({ m with path } : Message).content = .mutexRequest n := hc
  by_cases hs : m.sender = (s.nodes a).own
  · rw [receive_own hcopy hs]
    exact ⟨rfl, rfl⟩
  · have hserve : ((s.nodes a).noted m.sender n).serve m.sender =
        ((s.nodes a).noted m.sender n, []) := by
      unfold serve
      rw [token_noted]
      cases ht : (s.nodes a).token with
      | none => rfl
      | some token =>
        have hne : m.sender ≠ a := fun he => hs (he.trans (h.known.own a).symm)
        have hrecords := hl.held a token ht m.sender hne
        rw [Records, pending_of_phase hw, Nat.add_zero] at hrecords
        have hserved : ((s.nodes a).noted m.sender n).requestOf m.sender ≤ token.entry m.sender := by
          rw [requestOf_noted, if_pos rfl, hrecords]
          exact max_le (h.known.bound a m.sender) hn
        exact if_neg fun hgive => Nat.not_lt.2 hserved hgive.2
    rw [receive_request hcopy hs, hserve]
    refine ⟨token_noted _ _ _, ?_⟩
    dsimp only
    split <;> rfl

/-- Nobody knows of a request that was not made. The entries of the token, with its holder or on its
way, are exact for all servers that do not have it. It only goes to a server that waits for it, and no
request that is heard, however late, makes a holder give it to a server that does not wait. -/
theorem entries_exact (servers : Finset Id) (minter : Id) (events : List Event) :
    let s := run servers minter events
    (∀ p q n, (s.nodes q).requests.get? p = some n → n ≤ (s.nodes p).number) ∧
    (∀ a ∈ servers, ∀ token, (s.nodes a).token = some token →
      ∀ p ∈ servers, p ≠ a → s.Exact token p) ∧
    (∀ f ∈ s.flight, f.1 ∈ servers ∧ (s.nodes f.1).phase = .waiting ∧
      ∃ n token, f.2.content = .mutexToken n token ∧ ∀ p ∈ servers, s.Exact token p) ∧
    (∀ a ∈ servers, ∀ m ∈ s.requests, ∀ path, (s.nodes m.sender).phase ≠ .waiting →
      ((s.nodes a).receive { m with path }).1.token = (s.nodes a).token ∧
        ((s.nodes a).receive { m with path }).2.filterMap Outgoing.addressed? = []) := by
  intro s
  have h : Sound servers minter s := run_sound events
  have hl : Ledger minter s := run_ledger servers events
  refine ⟨fun p q n hget => ?_, fun a ha token ht p hp hpa => ?_, fun f hf => ?_,
    fun a _ m hm path hw => h.keeps_token hl hm path hw⟩
  · have hbound := h.known.bound q p
    rwa [requestOf, hget, Option.getD_some] at hbound
  · refine (hl.held a token ht p hpa).exact fun hi => hpa ?_
    exact h.accounted.eq_of_held hp ha (h.known.inside p hi) (by simp [ht])
  · obtain ⟨hmem, n, token, hc⟩ := h.known.flight f hf
    obtain ⟨hwait, hrecords⟩ := hl.flight f hf n token hc
    refine ⟨hmem, hwait, n, token, hc, fun p hp => (hrecords p).exact fun hi => ?_⟩
    have hnone := h.accounted.token_eq_none hp (List.length_pos_of_mem hf)
    simpa [hnone] using h.known.inside p hi

end Pool

end RelayMesh.Exclusion
