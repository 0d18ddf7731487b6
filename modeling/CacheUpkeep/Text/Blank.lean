/-!
# Blank characters

The characters with the Unicode property `White_Space`, trimming by them and
splitting at them.  Every list function here keeps the order of what it keeps.
-/

namespace CacheUpkeep.Text

/-- Membership in the Unicode property `White_Space`. -/
def isBlank (c : Char) : Bool :=
  let n := c.toNat
  (9 ≤ n && n ≤ 13) || n == 0x20 || n == 0x85 || n == 0xA0 || n == 0x1680 ||
    (0x2000 ≤ n && n ≤ 0x200A) || n == 0x2028 || n == 0x2029 || n == 0x202F ||
    n == 0x205F || n == 0x3000

def dropBlankStart (text : List Char) : List Char :=
  text.dropWhile isBlank

def dropBlankEnd (text : List Char) : List Char :=
  (text.reverse.dropWhile isBlank).reverse

def trimList (text : List Char) : List Char :=
  dropBlankEnd (dropBlankStart text)

/-- The text without the blanks at its two ends. -/
def trim (text : String) : String :=
  String.ofList (trimList text.toList)

/-- Splits at blanks; `word` holds the current word in reverse. -/
def wordsFrom (word : List Char) : List Char → List (List Char)
  | [] => if word.isEmpty then [] else [word.reverse]
  | c :: rest =>
      if isBlank c then
        if word.isEmpty then wordsFrom [] rest
        else word.reverse :: wordsFrom [] rest
      else wordsFrom (c :: word) rest

def words (text : String) : List String :=
  (wordsFrom [] text.toList).map String.ofList

end CacheUpkeep.Text
