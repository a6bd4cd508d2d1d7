import RelayMesh.Text.Invisible

namespace RelayMesh.Text

/-- The least digits of `n` in base 16. -/
def hex (n : Nat) : String := String.ofList (Nat.toDigits 16 n)

def quoteChar (c : Char) : String :=
  match c with
  | '\x00' => "\\0"
  | '\t' => "\\t"
  | '\n' => "\\n"
  | '\r' => "\\r"
  | '"' => "\\\""
  | '\\' => "\\\\"
  | c => if isInvisible c then "\\u\x7b" ++ hex c.toNat ++ "\x7d" else c.toString

/-- The text in double quotes, with everything escaped that a reader could not see. -/
def quote (text : String) : String :=
  "\"" ++ text.toList.foldl (fun out c => out ++ quoteChar c) "" ++ "\""

end RelayMesh.Text
