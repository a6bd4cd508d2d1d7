import RelayMesh.Fault

namespace RelayMesh

abbrev Bytes := List UInt8

namespace Wire.Varint

/-- Seven bits a byte, least significant first, and 128 added to every byte that another one follows. -/
def encode (n : Nat) : Bytes :=
  if n < 128 then [UInt8.ofNat n] else UInt8.ofNat (n % 128 + 128) :: encode (n / 128)
termination_by n

/-- How many numbers `bits` bits can tell apart. -/
def capacity (bits : Nat) : Nat := Nat.pow 2 bits

/-- Reads a number of at most `bits` bits. Longer forms than the shortest are accepted as long as
they need no more bytes than `bits` bits do. -/
def decode (bits : Nat) : Bytes → Except PayloadFault (Nat × Bytes)
  | [] => .error .unexpectedEnd
  | b :: rest =>
    if bits ≤ 7 then
      if b.toNat < capacity bits then .ok (b.toNat, rest) else .error .badVarint
    else if b.toNat < 128 then .ok (b.toNat, rest)
    else
      match decode (bits - 7) rest with
      | .ok (high, rest) => .ok (b.toNat - 128 + 128 * high, rest)
      | .error why => .error why

theorem encode_of_lt {n : Nat} (h : n < 128) : encode n = [UInt8.ofNat n] := by
  rw [encode, if_pos h]

theorem encode_of_le {n : Nat} (h : 128 ≤ n) :
    encode n = UInt8.ofNat (n % 128 + 128) :: encode (n / 128) := by
  rw [encode, if_neg (by omega)]

theorem capacity_pos (bits : Nat) : 0 < capacity bits := Nat.two_pow_pos bits

theorem capacity_split {bits : Nat} (h : 7 < bits) :
    capacity bits = 128 * capacity (bits - 7) := by
  obtain ⟨k, rfl⟩ : ∃ k, bits = 7 + k := ⟨bits - 7, by omega⟩
  rw [Nat.add_sub_cancel_left]
  exact Nat.pow_add 2 7 k

theorem capacity_le {bits : Nat} (h : bits ≤ 7) : capacity bits ≤ 128 :=
  Nat.pow_le_pow_right (n := 2) (by decide) h

/-- What was written is read back, whatever follows it. -/
theorem decode_encode {bits n : Nat} (h : n < capacity bits) (rest : Bytes) :
    decode bits (encode n ++ rest) = .ok (n, rest) := by
  induction n using Nat.strongRecOn generalizing bits with
  | ind n ih =>
    by_cases hn : n < 128
    · rw [encode_of_lt hn]
      have hb : (UInt8.ofNat n).toNat = n := by rw [UInt8.toNat_ofNat']; omega
      simp [decode, hb, h, hn]
    · have hbits : 7 < bits := by
        by_cases hb : bits ≤ 7
        · have := capacity_le hb; omega
        · omega
      have hhigh : n / 128 < capacity (bits - 7) := by
        rw [capacity_split hbits] at h
        exact Nat.div_lt_of_lt_mul h
      have hb : (UInt8.ofNat (n % 128 + 128)).toNat = n % 128 + 128 := by
        rw [UInt8.toNat_ofNat']; omega
      rw [encode_of_le (by omega)]
      simp only [List.cons_append, decode, hb]
      rw [if_neg (by omega), if_neg (by omega), ih (n / 128) (by omega) hhigh]
      simp only [Except.ok.injEq, Prod.mk.injEq, and_true]
      omega

/-- A number that was read fits the width it was read at. -/
theorem lt_of_decode {bits n : Nat} {bytes rest : Bytes}
    (h : decode bits bytes = .ok (n, rest)) : n < capacity bits := by
  induction bytes generalizing bits n rest with
  | nil => simp [decode] at h
  | cons b bytes ih =>
    simp only [decode] at h
    split at h
    next hb =>
      split at h
      next hlt => simp only [Except.ok.injEq, Prod.mk.injEq] at h; omega
      next => simp at h
    next hb =>
      have hs := @capacity_split bits (by omega)
      have hpos := capacity_pos (bits - 7)
      split at h
      next hlt => simp only [Except.ok.injEq, Prod.mk.injEq] at h; omega
      next hlt =>
        split at h
        next high rest' hd =>
          have hhigh := ih hd
          have hbyte := b.toNat_lt
          simp only [Except.ok.injEq, Prod.mk.injEq] at h
          have : 128 * (high + 1) ≤ 128 * capacity (bits - 7) := Nat.mul_le_mul_left _ hhigh
          omega
        next => simp at h

theorem length_encode_pos (n : Nat) : 0 < (encode n).length := by
  by_cases h : n < 128
  · rw [encode_of_lt h]; simp
  · rw [encode_of_le (by omega)]; simp

/-- Reading takes at least as many bytes as writing the number again gives. -/
theorem length_encode_of_decode {bits n : Nat} {bytes rest : Bytes}
    (h : decode bits bytes = .ok (n, rest)) :
    (encode n).length + rest.length ≤ bytes.length := by
  induction bytes generalizing bits n rest with
  | nil => simp [decode] at h
  | cons b bytes ih =>
    have short : ∀ k : Nat, k < 128 → (encode k).length = 1 := fun k hk => by
      rw [encode_of_lt hk]; rfl
    simp only [decode] at h
    split at h
    next hb =>
      split at h
      next hlt =>
        simp only [Except.ok.injEq, Prod.mk.injEq] at h
        obtain ⟨rfl, rfl⟩ := h
        have := capacity_le hb
        rw [short _ (by omega), List.length_cons]; omega
      next => simp at h
    next hb =>
      split at h
      next hlt =>
        simp only [Except.ok.injEq, Prod.mk.injEq] at h
        obtain ⟨rfl, rfl⟩ := h
        rw [short _ hlt, List.length_cons]; omega
      next hlt =>
        split at h
        next high rest' hd =>
          have hle := ih hd
          have hbyte := b.toNat_lt
          simp only [Except.ok.injEq, Prod.mk.injEq] at h
          obtain ⟨rfl, rfl⟩ := h
          by_cases hsmall : b.toNat - 128 + 128 * high < 128
          · rw [short _ hsmall, List.length_cons]
            have := length_encode_pos high
            omega
          · rw [encode_of_le (by omega), show (b.toNat - 128 + 128 * high) / 128 = high by omega]
            simp only [List.length_cons]
            omega
        next => simp at h

end Wire.Varint

end RelayMesh
