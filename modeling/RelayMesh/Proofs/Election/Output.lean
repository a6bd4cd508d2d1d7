import RelayMesh.Proofs.Election.Spread
import RelayMesh.Proofs.Server.Acts

namespace RelayMesh

namespace Election

/-- What happens to a server: its operator has it start, or it hears something. -/
inductive Call
  | start
  | token (sender initiator : Id)
  | leader (initiator : Id)
deriving DecidableEq

/-- What a server with `n` neighbours does on a call, and what it sends. -/
def call (e : Election) (n : Nat) : Call → Election × List Outgoing
  | .start => e.start n
  | .token sender initiator => e.onToken sender initiator n
  | .leader initiator => e.onLeader initiator n

def after (n : Nat) (e : Election) (calls : List Call) : Election :=
  calls.foldl (fun e c => (e.call n c).1) e

/-- All that is sent, each with the call on which it is sent. -/
def outputs (n : Nat) : Election → List Call → List (Call × Outgoing)
  | _, [] => []
  | e, c :: calls => (e.call n c).2.map (c, ·) ++ outputs n (e.call n c).1 calls

/-- The wave that a send belongs to: any token to its wave, and an announcement to the wave of the server
that announces itself. -/
def waveOf? (own : Id) (o : Outgoing) : Option Id :=
  match o.message.content with
  | .electionToken x => some x
  | .electionLeader x => if x = own then some x else none
  | _ => none

/-- The sends of one wave, or those that belong to none. -/
def ofWave (own : Id) (wave : Option Id) (sent : List (Call × Outgoing)) : List (Call × Outgoing) :=
  sent.filter fun s => waveOf? own s.2 = wave

/-- A call on which a server joins the wave of `x`, and the neighbour that it hears of it from. -/
inductive Joins (own x : Id) : Call → Option Id → Prop
  | own (h : x = own) : Joins own x .start none
  | heard (sender : Id) : Joins own x (.token sender x) (some sender)

/-- What a server sends once a wave that it had from `parent` is complete. -/
inductive Closes (own x : Id) (parent : Option Id) : Outgoing → Prop
  | announce (h : x = own) :
      Closes own x parent (.flood none MessageType.electionLeader (.new own (.electionLeader own)))
  | echo (h : x ≠ own) (sender : Id) (hp : parent = some sender) :
      Closes own x parent (.toServer sender MessageType.electionToken (.new own (.electionToken x)))

/-- All that a server sends in the wave of `x`: nothing, or a flood and after it at most one answer. -/
inductive Round (own x : Id) : List (Call × Outgoing) → Prop
  | silent : Round own x []
  | open {c : Call} {parent : Option Id} (h : Joins own x c parent) :
      Round own x [(c, .flood parent MessageType.electionToken (.new own (.electionToken x)))]
  | closed {c : Call} {parent : Option Id} (h : Joins own x c parent) {last : Id} {answer : Outgoing}
      (ha : Closes own x parent answer) :
      Round own x [(c, .flood parent MessageType.electionToken (.new own (.electionToken x))),
        (.token last x, answer)]

variable {e e' : Election} {n : Nat} {c : Call} {wave : Option Id} {out : List Outgoing} {x w : Id}

/-- What a server can do on a call, and the wave in which it sends. -/
inductive Reaction (n : Nat) (e : Election) : Call → Option Id → Election → List Outgoing → Prop
  | ignore (c : Call) (hc : ∀ z, c ≠ .leader z) : Reaction n e c none e []
  | start (hw : e.winner = none) (ho : e.isOutbid e.own = false) :
      Reaction n e .start (some e.own)
        { e with status := .initiator, candidate := some e.own, parent := none, tokenEchoes := 0 }
        [.flood none MessageType.electionToken (e.tokenMessage e.own)]
  | join (sender x : Id) (ho : e.isOutbid x = false) (e' : Election)
      (he : e' = { e with candidate := some x, parent := some sender, tokenEchoes := 1 }) :
      Reaction n e (.token sender x) (some x) e'
        (.flood (some sender) MessageType.electionToken (e.tokenMessage x) ::
          if 1 = n then e'.finishWave x else [])
  | count (sender x : Id) (hc : e.candidate = some x) (e' : Election)
      (he : e' = { e with tokenEchoes := e.tokenEchoes + 1 }) :
      Reaction n e (.token sender x) (some x) e'
        (if e.tokenEchoes + 1 = n then e'.finishWave x else [])
  | lead (z : Id) :
      Reaction n e (.leader z) none (e.onLeader z n).1
        (if e.leaderEchoes = 0 ∧ z ≠ e.own then
          [.flood none MessageType.electionLeader (e.leaderMessage z)] else [])

theorem reaction_start (hn : 0 < n) :
    ∃ wave, Reaction n e .start wave (e.start n).1 (e.start n).2 := by
  unfold start
  split
  next h => exact ⟨none, .ignore _ (by simp)⟩
  next h =>
    obtain ⟨hw, ho⟩ : e.winner = none ∧ e.isOutbid e.own = false := by simpa using h
    simp only [Nat.ne_of_gt hn, if_false]
    exact ⟨_, .start hw ho⟩

theorem reaction_token (sender x : Id) : ∃ wave,
    Reaction n e (.token sender x) wave (e.onToken sender x n).1 (e.onToken sender x n).2 := by
  unfold onToken join
  cases ho : e.isOutbid x with
  | false =>
    have hjoin := Reaction.join (n := n) sender x ho _ rfl
    exact ⟨_, by simpa [countEcho] using hjoin⟩
  | true =>
    simp only [if_true, countEcho]
    split
    next hc => exact ⟨_, .count sender x hc _ rfl⟩
    next => exact ⟨none, .ignore _ (by simp)⟩

theorem reaction_leader (z : Id) :
    Reaction n e (.leader z) none (e.onLeader z n).1 (e.onLeader z n).2 := by
  have hsends : (e.onLeader z n).2 = if e.leaderEchoes = 0 ∧ z ≠ e.own then
      [.flood none MessageType.electionLeader (e.leaderMessage z)] else [] := by
    unfold onLeader
    dsimp only
    split <;> rfl
  rw [hsends]
  exact .lead z

theorem exists_reaction (e : Election) (hn : 0 < n) (c : Call) :
    ∃ wave, Reaction n e c wave (e.call n c).1 (e.call n c).2 := by
  cases c with
  | start => exact reaction_start hn
  | token sender x => exact reaction_token sender x
  | leader z => exact ⟨none, reaction_leader z⟩

theorem Reaction.own (r : Reaction n e c wave e' out) : e'.own = e.own := by
  cases r with
  | ignore => rfl
  | start => rfl
  | join _ _ _ _ he => rw [he]
  | count _ _ _ _ he => rw [he]
  | lead z => unfold onLeader; dsimp only; split <;> rfl

/-- An announcement has nothing to do with the wave that the server takes part in. -/
theorem onLeader_keeps (e : Election) (z : Id) (n : Nat) :
    (e.onLeader z n).1.candidate = e.candidate ∧ (e.onLeader z n).1.parent = e.parent ∧
      (e.onLeader z n).1.tokenEchoes = e.tokenEchoes := by
  unfold onLeader
  dsimp only
  split <;> exact ⟨rfl, rfl, rfl⟩

/-- A wave in which the server has a parent, if it is not its own, has one answer. -/
theorem exists_finishWave (hp : x ≠ e.own → e.parent.isSome) :
    ∃ answer, Closes e.own x e.parent answer ∧ e.finishWave x = [answer] := by
  unfold finishWave
  split
  next h => exact ⟨_, .announce h, rfl⟩
  next h =>
    obtain ⟨sender, hsender⟩ := Option.isSome_iff_exists.1 (hp h)
    rw [hsender]
    exact ⟨_, .echo h sender rfl, rfl⟩

theorem waveOf?_finishWave : ∀ o ∈ e.finishWave x, waveOf? e.own o = some x := by
  intro o ho
  unfold finishWave at ho
  split at ho
  next h =>
    obtain rfl := List.mem_singleton.1 ho
    exact (if_pos rfl).trans (congrArg some h.symm)
  next =>
    split at ho
    · obtain rfl := List.mem_singleton.1 ho
      rfl
    · cases ho

/-- Whatever is sent on a call belongs to its wave. -/
theorem Reaction.waveOf? (r : Reaction n e c wave e' out) : ∀ o ∈ out, waveOf? e.own o = wave := by
  have hown := r.own
  intro o ho
  cases r with
  | ignore => cases ho
  | start =>
    obtain rfl := List.mem_singleton.1 ho
    rfl
  | join sender x =>
    rcases List.mem_cons.1 ho with rfl | ho
    · rfl
    · split at ho
      · exact hown ▸ waveOf?_finishWave o ho
      · cases ho
  | count sender x =>
    split at ho
    · exact hown ▸ waveOf?_finishWave o ho
    · cases ho
  | lead z =>
    split at ho
    next h =>
      obtain rfl := List.mem_singleton.1 ho
      exact if_neg h.2
    next => cases ho

/-- The sends of a wave are those of the first call, if it belongs to the wave, and those of later ones. -/
theorem ofWave_cons {calls : List Call} {sought : Option Id}
    (r : Reaction n e c wave (e.call n c).1 (e.call n c).2) :
    ofWave e.own sought (outputs n e (c :: calls)) =
      (if wave = sought then (e.call n c).2.map (c, ·) else []) ++
        ofWave (e.call n c).1.own sought (outputs n (e.call n c).1 calls) := by
  rw [r.own, ofWave, outputs, List.filter_append]
  congr 1
  split
  next h =>
    subst h
    refine List.filter_eq_self.2 fun s hs => ?_
    obtain ⟨o, ho, rfl⟩ := List.mem_map.1 hs
    simpa using r.waveOf? o ho
  next h =>
    refine List.filter_eq_nil_iff.2 fun s hs => ?_
    obtain ⟨o, ho, rfl⟩ := List.mem_map.1 hs
    simpa [r.waveOf? o ho] using h

theorem ofWave_cons_silent {calls : List Call} {sought : Option Id}
    (r : Reaction n e c wave (e.call n c).1 (e.call n c).2)
    (hout : wave = sought → (e.call n c).2 = []) :
    ofWave e.own sought (outputs n e (c :: calls)) =
      ofWave (e.call n c).1.own sought (outputs n (e.call n c).1 calls) := by
  rw [ofWave_cons r]
  split
  next hw => rw [hout hw, List.map_nil, List.nil_append]
  next => rw [List.nil_append]

/-- Once an announcement has come, nothing is sent that belongs to no wave. -/
theorem Reaction.heard (r : Reaction n e c wave e' out) (h : 0 < e.leaderEchoes) :
    0 < e'.leaderEchoes ∧ (wave = none → out = []) := by
  cases r with
  | ignore => exact ⟨h, fun _ => rfl⟩
  | start => exact ⟨h, nofun⟩
  | join _ _ _ _ he => exact ⟨he ▸ h, nofun⟩
  | count _ _ _ _ he => exact ⟨he ▸ h, nofun⟩
  | lead z =>
    rw [leaderEchoes_onLeader]
    exact ⟨Nat.succ_pos _, fun _ => if_neg fun hzero => Nat.ne_of_gt h hzero.1⟩

theorem Reaction.relays (r : Reaction n e c wave e' out) : (wave = none → out = []) ∨
    ∃ z ≠ e.own, c = .leader z ∧ wave = none ∧ 0 < e'.leaderEchoes ∧
      out = [.flood none MessageType.electionLeader (.new e.own (.electionLeader z))] := by
  cases r with
  | ignore => exact .inl fun _ => rfl
  | start => exact .inl nofun
  | join => exact .inl nofun
  | count => exact .inl nofun
  | lead z =>
    split
    next hfirst =>
      rw [leaderEchoes_onLeader]
      exact .inr ⟨z, hfirst.2, rfl, rfl, Nat.succ_pos _, rfl⟩
    next => exact .inl fun _ => rfl

/-- The server has answered in the wave, or has gone over to a smaller one. -/
def Past (n : Nat) (e : Election) (w : Id) : Prop :=
  ∃ x, e.candidate = some x ∧ (x < w ∨ x = w ∧ n ≤ e.tokenEchoes)

/-- The server takes part in the wave and has not answered yet. -/
structure Taking (n : Nat) (e : Election) (w : Id) : Prop where
  candidate : e.candidate = some w
  unanswered : e.tokenEchoes < n
  parent : w ≠ e.own → e.parent.isSome

theorem Past.reaction (h : Past n e w) (r : Reaction n e c wave e' out) :
    Past n e' w ∧ (wave = some w → out = []) := by
  obtain ⟨x, hx, hlt⟩ := h
  have smaller {y : Id} (ho : e.isOutbid y = false) : y < w := by
    have := lt_of_not_isOutbid ho hx
    grind
  cases r with
  | ignore => exact ⟨⟨x, hx, hlt⟩, fun _ => rfl⟩
  | start _ ho =>
    have := smaller ho
    exact ⟨⟨_, rfl, .inl this⟩, fun hw => by grind⟩
  | join sender y ho _ he =>
    have := smaller ho
    subst he
    exact ⟨⟨_, rfl, .inl this⟩, fun hw => by grind⟩
  | count sender y hc _ he =>
    subst he
    obtain rfl : x = y := Option.some.inj (hx.symm.trans hc)
    refine ⟨⟨x, hx, hlt.imp_right fun hdone => ⟨hdone.1, Nat.le_succ_of_le hdone.2⟩⟩, fun hw => ?_⟩
    obtain rfl : x = w := Option.some.inj hw
    have hfull : n ≤ e.tokenEchoes := by grind
    exact if_neg (by omega)
  | lead z =>
    obtain ⟨hcandidate, -, hechoes⟩ := e.onLeader_keeps z n
    exact ⟨⟨x, hcandidate ▸ hx, hechoes ▸ hlt⟩, nofun⟩

/-- The server counts, answers and is done with the wave, or goes over to a smaller one. -/
theorem Taking.reaction (h : Taking n e w) (r : Reaction n e c wave e' out) :
    (Taking n e' w ∧ e'.parent = e.parent ∨ Past n e' w) ∧ (wave = some w → out = []) ∨
      Past n e' w ∧ wave = some w ∧
        ∃ last answer, c = .token last w ∧ Closes e.own w e.parent answer ∧ out = [answer] := by
  obtain ⟨hw, hopen, hparent⟩ := h
  have hown := r.own
  cases r with
  | ignore => exact .inl ⟨.inl ⟨⟨hw, hopen, hparent⟩, rfl⟩, fun _ => rfl⟩
  | start _ ho =>
    have hlt := lt_of_not_isOutbid ho hw
    exact .inl ⟨.inr ⟨_, rfl, .inl hlt⟩, fun he => by grind⟩
  | join sender y ho _ he =>
    have hlt := lt_of_not_isOutbid ho hw
    subst he
    exact .inl ⟨.inr ⟨_, rfl, .inl hlt⟩, fun he => by grind⟩
  | count sender y hc _ he =>
    obtain rfl : w = y := Option.some.inj (hw.symm.trans hc)
    subst he
    by_cases hfull : e.tokenEchoes + 1 = n
    · rw [if_pos hfull]
      obtain ⟨answer, hcloses, hanswer⟩ :=
        exists_finishWave (e := { e with tokenEchoes := e.tokenEchoes + 1 }) hparent
      exact .inr ⟨⟨w, hw, .inr ⟨rfl, Nat.le_of_eq hfull.symm⟩⟩, rfl, sender, answer, rfl, hcloses, hanswer⟩
    · rw [if_neg hfull]
      exact .inl ⟨.inl ⟨⟨hw, by dsimp only; omega, hparent⟩, rfl⟩, fun _ => rfl⟩
  | lead z =>
    obtain ⟨hcandidate, hp, hechoes⟩ := e.onLeader_keeps z n
    exact .inl ⟨.inl ⟨⟨hcandidate ▸ hw, hechoes ▸ hopen, by rwa [hown, hp]⟩, hp⟩, nofun⟩

theorem ahead_or_past (n : Nat) (hc : e.candidate = some x) (hne : x ≠ w) :
    e.isOutbid w = false ∨ Past n e w := by
  by_cases hlt : x < w
  · exact .inr ⟨x, hc, .inl hlt⟩
  · refine .inl (Bool.eq_false_iff.2 fun h => ?_)
    obtain ⟨y, hy, hle⟩ := isOutbid_iff.1 h
    obtain rfl : x = y := Option.some.inj (hc.symm.trans hy)
    grind

/-- A server that has not joined the wave does so on a call of its own or of a neighbour. -/
theorem reaction_of_ahead (hn : 0 < n) (h : e.isOutbid w = false) (r : Reaction n e c wave e' out) :
    (e'.isOutbid w = false ∨ Past n e' w) ∧ (wave = some w → out = []) ∨
      wave = some w ∧ Joins e.own w c e'.parent ∧ ∃ answers,
        out = .flood e'.parent MessageType.electionToken (.new e.own (.electionToken w)) :: answers ∧
        (answers = [] ∧ Taking n e' w ∨ Past n e' w ∧
          ∃ last answer, c = .token last w ∧ Closes e.own w e'.parent answer ∧ answers = [answer]) := by
  cases r with
  | ignore => exact .inl ⟨.inl h, fun _ => rfl⟩
  | start _ ho =>
    by_cases hw : e.own = w
    · exact .inr ⟨congrArg some hw, .own hw.symm, [], by rw [← hw]; rfl,
        .inl ⟨rfl, congrArg some hw, hn, fun hne => absurd hw.symm hne⟩⟩
    · exact .inl ⟨ahead_or_past n rfl hw, fun he => absurd (Option.some.inj he) hw⟩
  | join sender y ho _ he =>
    subst he
    by_cases hw : y = w
    · subst hw
      refine .inr ⟨rfl, .heard sender, _, rfl, ?_⟩
      split
      next hfull =>
        obtain ⟨answer, hcloses, hanswer⟩ := exists_finishWave (x := y)
          (e := { e with candidate := some y, parent := some sender, tokenEchoes := 1 }) fun _ => rfl
        exact .inr ⟨⟨y, rfl, .inr ⟨rfl, Nat.le_of_eq hfull.symm⟩⟩, sender, answer, rfl, hcloses, hanswer⟩
      next hmore => exact .inl ⟨rfl, rfl, Nat.lt_of_le_of_ne hn hmore, fun _ => rfl⟩
    · exact .inl ⟨ahead_or_past n rfl hw, fun he => absurd (Option.some.inj he) hw⟩
  | count sender y hc _ he =>
    subst he
    have hne : y ≠ w := fun hw => by simp [isOutbid_of_candidate (hw ▸ hc)] at h
    exact .inl ⟨ahead_or_past n hc hne, fun he => absurd (Option.some.inj he) hne⟩
  | lead z =>
    obtain ⟨hcandidate, -, -⟩ := e.onLeader_keeps z n
    exact .inl ⟨.inl (by rw [isOutbid, hcandidate]; exact h), nofun⟩

theorem outputs_of_past (hn : 0 < n) (h : Past n e w) (calls : List Call) :
    ofWave e.own (some w) (outputs n e calls) = [] := by
  induction calls generalizing e with
  | nil => rfl
  | cons c calls ih =>
    obtain ⟨wave, r⟩ := e.exists_reaction hn c
    obtain ⟨hpast, hout⟩ := h.reaction r
    rw [ofWave_cons_silent r hout]
    exact ih hpast

theorem outputs_of_taking (hn : 0 < n) (h : Taking n e w) (calls : List Call) :
    ofWave e.own (some w) (outputs n e calls) = [] ∨ ∃ last answer, Closes e.own w e.parent answer ∧
      ofWave e.own (some w) (outputs n e calls) = [(.token last w, answer)] := by
  induction calls generalizing e with
  | nil => exact .inl rfl
  | cons c calls ih =>
    obtain ⟨wave, r⟩ := e.exists_reaction hn c
    rcases h.reaction r with ⟨hnext, hout⟩ | ⟨hpast, hwave, last, answer, hc, hcloses, hout⟩
    · rw [ofWave_cons_silent r hout]
      rcases hnext with ⟨htaking, hparent⟩ | hpast
      · rw [← r.own, ← hparent]
        exact ih htaking
      · exact .inl (outputs_of_past hn hpast calls)
    · rw [ofWave_cons r, if_pos hwave, hout, outputs_of_past hn hpast calls, hc]
      exact .inr ⟨last, answer, hcloses, rfl⟩

/-- A server that has not joined the wave yet has one round of it before it. -/
theorem round_of_ahead (hn : 0 < n) (h : e.isOutbid w = false) (calls : List Call) :
    Round e.own w (ofWave e.own (some w) (outputs n e calls)) := by
  induction calls generalizing e with
  | nil => exact .silent
  | cons c calls ih =>
    obtain ⟨wave, r⟩ := e.exists_reaction hn c
    rcases reaction_of_ahead hn h r with ⟨hnext, hout⟩ | ⟨hwave, hjoins, answers, hout, hnext⟩
    · rw [ofWave_cons_silent r hout]
      rcases hnext with hahead | hpast
      · exact r.own ▸ ih hahead
      · rw [outputs_of_past hn hpast calls]
        exact .silent
    · rw [ofWave_cons r, if_pos hwave, hout]
      rcases hnext with ⟨rfl, htaking⟩ | ⟨hpast, last, answer, rfl, hcloses, rfl⟩
      · rcases outputs_of_taking hn htaking calls with hnone | ⟨last, answer, hcloses, hone⟩
        · rw [hnone]
          exact .open hjoins
        · rw [hone]
          exact .closed hjoins (r.own ▸ hcloses)
      · rw [outputs_of_past hn hpast calls]
        exact .closed hjoins hcloses

/-- Only the first announcement is passed on, so none is after any. -/
theorem relays_of_heard (hn : 0 < n) (h : 0 < e.leaderEchoes) (calls : List Call) :
    ofWave e.own none (outputs n e calls) = [] := by
  induction calls generalizing e with
  | nil => rfl
  | cons c calls ih =>
    obtain ⟨wave, r⟩ := e.exists_reaction hn c
    obtain ⟨hheard, hout⟩ := r.heard h
    rw [ofWave_cons_silent r hout]
    exact ih hheard

/-- What belongs to no wave is the first announcement, passed on, if it is not of the server itself. -/
theorem relays_once (hn : 0 < n) (calls : List Call) :
    ofWave e.own none (outputs n e calls) = [] ∨ ∃ z ≠ e.own,
      ofWave e.own none (outputs n e calls) =
        [(.leader z, .flood none MessageType.electionLeader (.new e.own (.electionLeader z)))] := by
  induction calls generalizing e with
  | nil => exact .inl rfl
  | cons c calls ih =>
    obtain ⟨wave, r⟩ := e.exists_reaction hn c
    rcases r.relays with ⟨hout⟩ | ⟨z, hz, rfl, hwave, hheard, hout⟩
    · rw [ofWave_cons_silent r hout, ← r.own]
      exact ih
    · rw [ofWave_cons r, if_pos hwave, hout, relays_of_heard hn hheard calls]
      exact .inr ⟨z, hz, rfl⟩

/-- What a server knows of the end of the election. -/
structure Informed (n : Nat) (e : Election) : Prop where
  verdict : e.status = .leader ∨ e.status = .nonLeader → n ≤ e.leaderEchoes
  winner : 0 < e.leaderEchoes → e.winner ≠ none

/-- The verdict stays. -/
theorem Informed.reaction (hn : 0 < n) (h : Informed n e) (r : Reaction n e c wave e' out) :
    Informed n e' ∧ (e.status = .leader ∨ e.status = .nonLeader → e'.status = e.status) := by
  cases r with
  | ignore => exact ⟨h, fun _ => rfl⟩
  | start hw =>
    have hzero : e.leaderEchoes = 0 := Nat.eq_zero_of_not_pos fun hpos => h.winner hpos hw
    refine ⟨⟨by simp, fun hpos => ?_⟩, fun hjudged => ?_⟩
    · exact absurd hpos (by simp [hzero])
    · have := h.verdict hjudged
      omega
  | join sender x _ _ he =>
    subst he
    exact ⟨⟨h.verdict, h.winner⟩, fun _ => rfl⟩
  | count sender x _ _ he =>
    subst he
    exact ⟨⟨h.verdict, h.winner⟩, fun _ => rfl⟩
  | lead z =>
    refine ⟨⟨fun hjudged => ?_, fun _ => by simp [winner_onLeader]⟩, fun hjudged => ?_⟩
    · rw [leaderEchoes_onLeader]
      rw [status_onLeader] at hjudged
      by_cases hfull : e.leaderEchoes + 1 = n
      · exact Nat.le_of_eq hfull.symm
      · rw [if_neg hfull] at hjudged
        exact Nat.le_succ_of_le (h.verdict hjudged)
    · have := h.verdict hjudged
      rw [status_onLeader, if_neg (by omega)]

theorem informed_after (hn : 0 < n) (h : Informed n e) (calls : List Call) :
    Informed n (e.after n calls) ∧
      (e.status = .leader ∨ e.status = .nonLeader → (e.after n calls).status = e.status) := by
  induction calls generalizing e with
  | nil => exact ⟨h, fun _ => rfl⟩
  | cons c calls ih =>
    obtain ⟨wave, r⟩ := e.exists_reaction hn c
    obtain ⟨hnext, hstays⟩ := h.reaction hn r
    obtain ⟨hafter, hlater⟩ := ih hnext
    refine ⟨hafter, fun hjudged => ?_⟩
    have hsame := hstays hjudged
    exact (hlater (hsame.symm ▸ hjudged)).trans hsame

theorem Reaction.isOutbid (r : Reaction n e c wave e' out) (h : e.isOutbid w = true) :
    e'.isOutbid w = true := by
  obtain ⟨x, hx, hle⟩ := isOutbid_iff.1 h
  cases r with
  | ignore => exact h
  | start _ ho =>
    have hlt := lt_of_not_isOutbid ho hx
    exact isOutbid_iff.2 ⟨_, rfl, by grind⟩
  | join sender y ho _ he =>
    have hlt := lt_of_not_isOutbid ho hx
    subst he
    exact isOutbid_iff.2 ⟨_, rfl, by grind⟩
  | count sender y _ _ he =>
    subst he
    exact h
  | lead z =>
    obtain ⟨hcandidate, -, -⟩ := e.onLeader_keeps z n
    exact isOutbid_iff.2 ⟨x, hcandidate ▸ hx, hle⟩

theorem isOutbid_after (hn : 0 < n) (h : e.isOutbid w = true) (calls : List Call) :
    (e.after n calls).isOutbid w = true := by
  induction calls generalizing e with
  | nil => exact h
  | cons c calls ih =>
    obtain ⟨wave, r⟩ := e.exists_reaction hn c
    exact ih (r.isOutbid h)

theorem after_append (e : Election) (n : Nat) (calls later : List Call) :
    e.after n (calls ++ later) = (e.after n calls).after n later := List.foldl_append

/-- A server with a constant number of neighbours hears anything, in any order. The wave that it takes
part in only gets smaller. In each wave it sends one round: a flood on the call on which it joins the
wave, to all but the neighbour that it has it from, and after that one answer, which is an echo to this
neighbour or, in its own wave, its announcement as the leader. All else that it ever sends is the first
announcement of another server, once. When it has a verdict, the verdict stays. -/
theorem one_round_each_and_final (own : Id) (hn : 0 < n) (calls later : List Call) :
    let e : Election := { own }
    (∀ x, (e.after n calls).candidate = some x →
      ∃ y ≤ x, (e.after n (calls ++ later)).candidate = some y) ∧
    (∀ x, Round own x (ofWave own (some x) (outputs n e calls))) ∧
    (ofWave own none (outputs n e calls) = [] ∨ ∃ z ≠ own, ofWave own none (outputs n e calls) =
      [(.leader z, .flood none MessageType.electionLeader (.new own (.electionLeader z)))]) ∧
    ((e.after n calls).status = .leader ∨ (e.after n calls).status = .nonLeader →
      (e.after n (calls ++ later)).status = (e.after n calls).status) := by
  intro e
  have hinformed : Informed n e := ⟨by simp [e], by simp [e]⟩
  rw [after_append]
  refine ⟨fun x hx => ?_, fun x => round_of_ahead (e := e) hn rfl calls, relays_once (e := e) hn calls,
    (informed_after hn (informed_after hn hinformed calls).1 later).2⟩
  obtain ⟨y, hy, hle⟩ := isOutbid_iff.1 (isOutbid_after hn (isOutbid_of_candidate hx) later)
  exact ⟨y, hle, hy⟩

/-- Server 5 starts. One neighbour answers three times and another one has heard of the wave of 3 twice;
then 4 is said to have won, twice. -/
def misled : List Call :=
  [.start, .token 9 5, .token 9 5, .token 9 5, .token 7 3, .token 7 3, .leader 4, .leader 4]

/-- What it is told afterwards: of a still smaller wave, and that it has won itself. -/
def rumours : List Call := [.start, .token 1 1, .leader 5, .leader 5]

theorem one_round_each_and_final_misled :
    let e : Election := { own := 5 }
    (ofWave 5 (some 5) (outputs 2 e misled)).length = 2 ∧
    (∃ answer, Closes 5 3 (some 7) answer ∧ ofWave 5 (some 3) (outputs 2 e misled) =
      [(.token 7 3, .flood (some 7) MessageType.electionToken (.new 5 (.electionToken 3))),
        (.token 7 3, answer)]) ∧
    (ofWave 5 none (outputs 2 e misled)).length = 1 ∧
    (∃ y ≤ 3, (e.after 2 (misled ++ rumours)).candidate = some y) ∧
    (e.after 2 (misled ++ rumours)).status = .nonLeader := by
  intro e
  obtain ⟨hcandidate, -, -, hfinal⟩ :=
    one_round_each_and_final 5 (n := 2) (by decide) misled rumours
  have hjudged : (e.after 2 misled).status = .nonLeader := by decide
  refine ⟨by decide, ?_, by decide, hcandidate 3 (by decide), (hfinal (.inr hjudged)).trans hjudged⟩
  exact ⟨_, .echo (by decide) 7 rfl, by decide⟩

end Election

end RelayMesh
