import CacheUpkeep.Text.Decimal

/-!
# Escapes of the shell

The backslash escapes in formats and in texts that are written.  In a text an octal
escape may start with a zero of its own, and `\c` ends all output.
-/

namespace CacheUpkeep.Shell

open CacheUpkeep.Text

structure Unescaped where
  text : List Char
  stop : Bool
deriving DecidableEq, Repr

def isOctal (c : Char) : Bool :=
  '0' ≤ c && c ≤ '7'

def octalOctet (ds : List Char) : Char :=
  Char.ofNat (ds.foldl (fun n c => 8 * n + digitValue c) 0 % 256)

def controlOf? (c : Char) : Option Char :=
  match c with
  | '\\' => some '\\'
  | 'a' => some '\x07'
  | 'b' => some '\x08'
  | 'e' => some '\x1b'
  | 'f' => some '\x0c'
  | 'n' => some '\n'
  | 'r' => some '\x0d'
  | 't' => some '\t'
  | 'v' => some '\x0b'
  | _ => none

def escapeAfter (text : List Char) : Char × List Char :=
  match text with
  | [] => ('\\', [])
  | c :: rest =>
      match controlOf? c with
      | some d => (d, rest)
      | none =>
          let ds := (text.take 3).takeWhile isOctal
          if ds.isEmpty then ('\\', text) else (octalOctet ds, text.drop ds.length)

/-- What follows a backslash in a text, without a zero in front of octal digits. -/
def withoutZero (text : List Char) : List Char :=
  match text with
  | '0' :: c :: rest => if isOctal c then c :: rest else text
  | _ => text

def unescapeWith : Nat → List Char → Unescaped
  | 0, _ => ⟨[], false⟩
  | _ + 1, [] => ⟨[], false⟩
  | _ + 1, '\\' :: 'c' :: _ => ⟨[], true⟩
  | fuel + 1, '\\' :: rest =>
      let (c, rest) := escapeAfter (withoutZero rest)
      let r := unescapeWith fuel rest
      { r with text := c :: r.text }
  | fuel + 1, c :: rest =>
      let r := unescapeWith fuel rest
      { r with text := c :: r.text }

def unescape (text : List Char) : Unescaped :=
  unescapeWith (text.length + 1) text

end CacheUpkeep.Shell
