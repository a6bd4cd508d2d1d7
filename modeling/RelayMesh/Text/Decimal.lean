import RelayMesh.Fault

namespace RelayMesh.Text

def digit? (c : Char) : Option Nat :=
  if '0' ≤ c ∧ c ≤ '9' then some (c.toNat - '0'.toNat) else none

/-- Reads on after digits worth `value`. A character that is no digit is noticed before a number
that became too large with it. -/
def digits (value : Nat) : List Char → Except NumberFault Nat
  | [] => .ok value
  | c :: rest =>
    match digit? c with
    | none => .error .badDigit
    | some d => if 10 * value + d < UInt32.size then digits (10 * value + d) rest else .error .tooLarge

/-- A number of 32 bits: digits, with an optional plus sign before them. -/
def word (text : List Char) : Except NumberFault UInt32 :=
  match text with
  | [] => .error .empty
  | ['+'] => .error .badDigit
  | '+' :: rest => (digits 0 rest).map UInt32.ofNat
  | text => (digits 0 text).map UInt32.ofNat

end RelayMesh.Text
