namespace RelayMesh

/-- A finite map: its bindings, in strictly ascending order of key. -/
structure SortedMap (κ β : Type) [LT κ] where
  toList : List (κ × β)
  ascending : toList.Pairwise (fun a b => a.1 < b.1)
deriving DecidableEq

namespace SortedMap

section Operations

variable {κ β : Type} [LT κ]

def empty : SortedMap κ β := ⟨[], List.Pairwise.nil⟩

instance : Inhabited (SortedMap κ β) := ⟨empty⟩

def size (m : SortedMap κ β) : Nat := m.toList.length

def keys (m : SortedMap κ β) : List κ := m.toList.map (·.1)

def values (m : SortedMap κ β) : List β := m.toList.map (·.2)

/-- The value of the first binding of `k`. -/
def find [DecidableEq κ] (k : κ) : List (κ × β) → Option β
  | [] => none
  | (k', v) :: rest => if k = k' then some v else find k rest

def get? [DecidableEq κ] (m : SortedMap κ β) (k : κ) : Option β := find k m.toList

def contains [DecidableEq κ] (m : SortedMap κ β) (k : κ) : Bool := (m.get? k).isSome

def filter (p : κ → β → Bool) (m : SortedMap κ β) : SortedMap κ β :=
  ⟨m.toList.filter (fun b => p b.1 b.2), m.ascending.filter _⟩

def erase [DecidableEq κ] (m : SortedMap κ β) (k : κ) : SortedMap κ β :=
  m.filter (fun k' _ => k' ≠ k)

def mapValues (f : β → β) (m : SortedMap κ β) : SortedMap κ β :=
  ⟨m.toList.map fun b => (b.1, f b.2), m.ascending.map _ fun _ _ h => h⟩

/-- Writes one binding into an ascending list, in its place. -/
def put [DecidableLT κ] [DecidableEq κ] (k : κ) (v : β) : List (κ × β) → List (κ × β)
  | [] => [(k, v)]
  | (k', v') :: rest =>
    if k < k' then (k, v) :: (k', v') :: rest
    else if k = k' then (k, v) :: rest
    else (k', v') :: put k v rest

theorem mem_put [DecidableLT κ] [DecidableEq κ] {k : κ} {v : β} {l : List (κ × β)} {b : κ × β}
    (h : b ∈ put k v l) : b = (k, v) ∨ b ∈ l := by
  induction l with
  | nil => simpa [put] using h
  | cons a l ih =>
    simp only [put] at h
    split at h
    · simpa using h
    · split at h <;> grind

@[simp] theorem get?_empty [DecidableEq κ] (k : κ) : (empty : SortedMap κ β).get? k = none := rfl

theorem find_map {κ β γ : Type} [DecidableEq κ] (f : β → γ) (k : κ) (l : List (κ × β)) :
    find k (l.map fun b => (b.1, f b.2)) = (find k l).map f := by
  induction l with
  | nil => rfl
  | cons b rest ih => by_cases h : k = b.1 <;> simp [find, h, ih]

@[simp] theorem get?_mapValues [DecidableEq κ] (m : SortedMap κ β) (f : β → β) (k : κ) :
    (m.mapValues f).get? k = (m.get? k).map f := find_map f k m.toList

theorem find_put [DecidableLT κ] [DecidableEq κ] (k k' : κ) (v : β) (l : List (κ × β)) :
    find k' (put k v l) = if k' = k then some v else find k' l := by
  induction l with
  | nil => rfl
  | cons a l ih =>
    simp only [put]
    split <;> grind [find]

end Operations

section Lookup

variable {κ β : Type} [LT κ] [LE κ] [DecidableEq κ] [Std.LawfulOrderLT κ]

theorem find_eq_some_iff {k : κ} {v : β} {l : List (κ × β)}
    (h : l.Pairwise (fun a b => a.1 < b.1)) : find k l = some v ↔ (k, v) ∈ l := by
  induction l with
  | nil => simp [find]
  | cons a l ih =>
    rw [List.pairwise_cons] at h
    obtain ⟨k', v'⟩ := a
    by_cases hk : k = k'
    · subst hk
      have : ∀ w, (k, w) ∉ l := fun w hw => Std.lt_irrefl (h.1 (k, w) hw)
      simp [find, this, eq_comm]
    · simp [find, hk, ih h.2]

omit [DecidableEq κ] in
/-- No binding is listed twice. -/
theorem nodup_toList (m : SortedMap κ β) : m.toList.Nodup := by
  refine m.ascending.imp fun {a b} h he => ?_
  rw [he] at h
  exact Std.lt_irrefl h

theorem mem_toList_iff (m : SortedMap κ β) {k : κ} {v : β} :
    (k, v) ∈ m.toList ↔ m.get? k = some v :=
  (find_eq_some_iff m.ascending).symm

@[simp] theorem get?_filter (m : SortedMap κ β) (p : κ → β → Bool) (k : κ) :
    (m.filter p).get? k = (m.get? k).filter (p k) := by
  apply Option.ext
  intro v
  rw [← mem_toList_iff, Option.filter_eq_some_iff, ← mem_toList_iff]
  simp [filter]

@[simp] theorem get?_erase (m : SortedMap κ β) (k k' : κ) :
    (m.erase k).get? k' = if k' = k then none else m.get? k' := by
  rw [erase, get?_filter]
  by_cases h : k' = k <;> cases m.get? k' <;> simp [Option.filter, h]

end Lookup

section Ordered

variable {κ β : Type} [LT κ] [LE κ] [DecidableLT κ] [DecidableEq κ]
  [Std.LawfulOrderLT κ] [Std.IsLinearOrder κ]

theorem put_ascending (k : κ) (v : β) {l : List (κ × β)}
    (h : l.Pairwise (fun a b => a.1 < b.1)) : (put k v l).Pairwise (fun a b => a.1 < b.1) := by
  induction l with
  | nil => simp [put]
  | cons a l ih =>
    obtain ⟨k', v'⟩ := a
    rw [List.pairwise_cons] at h
    simp only [put]
    split
    next hk =>
      refine List.pairwise_cons.2 ⟨fun b hb => ?_, List.pairwise_cons.2 h⟩
      rcases List.mem_cons.1 hb with rfl | hb
      · exact hk
      · exact Std.lt_trans hk (h.1 b hb)
    next hk =>
      split
      next he => exact List.pairwise_cons.2 ⟨fun b hb => he ▸ h.1 b hb, h.2⟩
      next he =>
        refine List.pairwise_cons.2 ⟨fun b hb => ?_, ih h.2⟩
        rcases mem_put hb with rfl | hb
        · rcases Std.lt_trichotomy k k' with hlt | heq | hgt
          · exact absurd hlt hk
          · exact absurd heq he
          · exact hgt
        · exact h.1 b hb

/-- The map with `k` bound to `v`, in place of any earlier binding. -/
def insert (m : SortedMap κ β) (k : κ) (v : β) : SortedMap κ β :=
  ⟨put k v m.toList, put_ascending k v m.ascending⟩

/-- The map of a list of bindings, of which the last one of a key counts. -/
def ofList (l : List (κ × β)) : SortedMap κ β :=
  l.foldl (fun m b => m.insert b.1 b.2) empty

@[simp] theorem get?_insert (m : SortedMap κ β) (k k' : κ) (v : β) :
    (m.insert k v).get? k' = if k' = k then some v else m.get? k' :=
  find_put k k' v m.toList

omit [DecidableLT κ] in
/-- Two maps with the same look-ups are equal. -/
theorem ext_get? {m n : SortedMap κ β} (h : ∀ k, m.get? k = n.get? k) : m = n := by
  have key : ∀ l l' : List (κ × β), l.Pairwise (fun a b => a.1 < b.1) →
      l'.Pairwise (fun a b => a.1 < b.1) → (∀ b, b ∈ l ↔ b ∈ l') → l = l' := by
    intro l
    induction l with
    | nil =>
      intro l' _ _ hm
      cases l' with
      | nil => rfl
      | cons b l' => exact absurd ((hm b).2 (by simp)) (by simp)
    | cons a l ih =>
      intro l' hl hl' hm
      cases l' with
      | nil => exact absurd ((hm a).1 (by simp)) (by simp)
      | cons b l' =>
        rw [List.pairwise_cons] at hl hl'
        have hab : a = b := by
          rcases List.mem_cons.1 ((hm a).1 (by simp)) with h | h
          · exact h
          · rcases List.mem_cons.1 ((hm b).2 (by simp)) with h' | h'
            · exact h'.symm
            · exact absurd (Std.lt_trans (hl.1 b h') (hl'.1 a h)) Std.lt_irrefl
        subst hab
        congr 1
        refine ih l' hl.2 hl'.2 fun c => ⟨fun hc => ?_, fun hc => ?_⟩
        · rcases List.mem_cons.1 ((hm c).1 (by simp [hc])) with h' | h'
          · exact absurd (h' ▸ hl.1 c hc) Std.lt_irrefl
          · exact h'
        · rcases List.mem_cons.1 ((hm c).2 (by simp [hc])) with h' | h'
          · exact absurd (h' ▸ hl'.1 c hc) Std.lt_irrefl
          · exact h'
  obtain ⟨l, hl⟩ := m
  obtain ⟨l', hl'⟩ := n
  congr 1
  refine key l l' hl hl' fun b => ?_
  obtain ⟨k, v⟩ := b
  rw [← find_eq_some_iff hl, ← find_eq_some_iff hl']
  exact ⟨fun e => (h k).symm.trans e, fun e => (h k).trans e⟩

/-- A map is the map of its bindings. -/
theorem ofList_toList (m : SortedMap κ β) : ofList m.toList = m := by
  have fold : ∀ (l : List (κ × β)) (n : SortedMap κ β) (k : κ),
      l.Pairwise (fun a b => a.1 < b.1) →
        (l.foldl (fun n b => n.insert b.1 b.2) n).get? k = (find k l).or (n.get? k) := by
    intro l
    induction l with
    | nil => exact fun n k _ => rfl
    | cons b l ih =>
      intro n k hl
      rw [List.pairwise_cons] at hl
      rw [List.foldl_cons, ih _ k hl.2, get?_insert, find]
      split
      next hk =>
        cases hfind : find k l with
        | none => rfl
        | some v =>
          rw [find_eq_some_iff hl.2, hk] at hfind
          exact absurd (hl.1 _ hfind) Std.lt_irrefl
      next => rfl
  refine ext_get? fun k => ?_
  rw [ofList, fold m.toList empty k m.ascending, get?_empty, Option.or_none]
  rfl

/-- A map that gives every key of a list its value. -/
theorem get?_ofList_map (keys : List κ) (f : κ → β) (k : κ) :
    (ofList (keys.map fun key => (key, f key))).get? k = if k ∈ keys then some (f k) else none := by
  have fold : ∀ m : SortedMap κ β, (∀ v, m.get? k = some v → v = f k) →
      ((keys.map fun key => (key, f key)).foldl (fun m b => m.insert b.1 b.2) m).get? k =
        if k ∈ keys then some (f k) else m.get? k := by
    induction keys with
    | nil => simp
    | cons key keys ih =>
      intro m hm
      rw [List.map_cons, List.foldl_cons, ih]
      · rw [get?_insert]
        by_cases hk : k = key
        · simp [hk]
        · simp [hk]
      · intro v hv
        rw [get?_insert] at hv
        split at hv
        next hk => rw [hk]; exact (Option.some.inj hv).symm
        next => exact hm v hv
  exact fold empty (by simp)

/-- A value in a map that was made from a list is one of the list. -/
theorem mem_of_get?_ofList {l : List (κ × β)} {k : κ} {v : β} (h : (ofList l).get? k = some v) :
    (k, v) ∈ l := by
  have fold : ∀ (l : List (κ × β)) (m : SortedMap κ β),
      (l.foldl (fun m b => m.insert b.1 b.2) m).get? k = some v →
        (k, v) ∈ l ∨ m.get? k = some v := by
    intro l
    induction l with
    | nil => exact fun m h => .inr h
    | cons b l ih =>
      intro m h
      rcases ih _ h with hmem | hget
      · exact .inl (List.mem_cons_of_mem _ hmem)
      · rw [get?_insert] at hget
        split at hget
        next hk => exact .inl (by simp [hk, ← Option.some.inj hget])
        next => exact .inr hget
  exact (fold l empty h).resolve_right (by simp)

theorem toList_ofList_subset (l : List (κ × β)) : (ofList l).toList ⊆ l := fun _ hb =>
  mem_of_get?_ofList ((mem_toList_iff _).1 hb)

end Ordered

end SortedMap

end RelayMesh
