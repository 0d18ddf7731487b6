/-!
# Texts of the log

What a log line shows of a message.  Characters that could steer a terminal are
written as escapes; line feeds, tabs and carriage returns stay.
-/

namespace CacheUpkeep.CommandLine

def steeringEscape? (c : Char) : Option String :=
  match c.toNat with
  | 7 => some "\\x07"
  | 8 => some "\\x08"
  | 12 => some "\\x0c"
  | 27 => some "\\x1b"
  | 127 => some "\\x7f"
  | n =>
      if 128 ≤ n && n ≤ 159 then
        some ("\\u\x7b" ++ String.ofList (Nat.toDigits 16 n) ++ "\x7d")
      else none

def loggedText (message : String) : String :=
  String.join (message.toList.map fun c => (steeringEscape? c).getD (String.singleton c))

end CacheUpkeep.CommandLine
