/-!
# Lines of a text

A line ends at a line feed, and one carriage return before the line feed
belongs to the line end.  A text that ends in a line feed has no empty last
line.
-/

namespace CacheUpkeep.Text

/-- Splits at every occurrence of `mark`; the result is never empty. -/
def splitAtEach (mark : Char) : List Char → List (List Char)
  | [] => [[]]
  | c :: rest =>
      if c = mark then [] :: splitAtEach mark rest
      else
        match splitAtEach mark rest with
        | [] => [[c]]
        | first :: others => (c :: first) :: others

/-- The text before the first `mark` and the text after it. -/
def splitAtFirst (mark : Char) : List Char → Option (List Char × List Char)
  | [] => none
  | c :: rest =>
      if c = mark then some ([], rest)
      else (splitAtFirst mark rest).map fun (before, after) => (c :: before, after)

/-- The text before the first occurrence of `mark`, and all of it if there is none. -/
def beforeFirst (mark : List Char) : List Char → List Char
  | [] => []
  | c :: rest =>
      if mark.isPrefixOf (c :: rest) then [] else c :: beforeFirst mark rest

def occursIn (part : List Char) : List Char → Bool
  | [] => part.isEmpty
  | c :: rest => part.isPrefixOf (c :: rest) || occursIn part rest

/-- A line without one carriage return at its end. -/
def dropReturn (line : List Char) : List Char :=
  if line.getLast? = some '\r' then line.dropLast else line

/--
The lines among the pieces between line feeds: only a piece that a line feed
ends loses its carriage return, and an empty last piece is no line.
-/
def linesOfPieces : List (List Char) → List (List Char)
  | [] => []
  | [last] => if last.isEmpty then [] else [last]
  | piece :: rest => dropReturn piece :: linesOfPieces rest

def linesList (text : List Char) : List (List Char) :=
  linesOfPieces (splitAtEach '\n' text)

def lines (text : String) : List String :=
  (linesList text.toList).map String.ofList

theorem splitAtEach_ne_nil (mark : Char) (text : List Char) :
    splitAtEach mark text ≠ [] := by
  cases text with
  | nil => simp [splitAtEach]
  | cons c rest =>
      unfold splitAtEach
      split
      · simp
      · split <;> simp

end CacheUpkeep.Text
