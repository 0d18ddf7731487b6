import CacheUpkeep.Text.Blank
import CacheUpkeep.Text.Lines

/-!
# Conan configuration files

A file of lines `key=value`.  Lines that start with `#` and lines without `=`
are dropped on reading.  Setting a key replaces its value in place or appends.
-/

namespace CacheUpkeep

open CacheUpkeep.Text

structure ConanConf where
  entries : List (String × String)
deriving DecidableEq, Repr

namespace ConanConf

def empty : ConanConf :=
  ⟨[]⟩

def setIn (key value : String) : List (String × String) → List (String × String)
  | [] => [(key, value)]
  | (k, v) :: rest =>
      if k = key then (key, value) :: rest else (k, v) :: setIn key value rest

def get? (conf : ConanConf) (key : String) : Option String :=
  conf.entries.lookup key

def set (conf : ConanConf) (key value : String) : ConanConf :=
  ⟨setIn key value conf.entries⟩

def setAll (conf : ConanConf) (values : List (String × String)) : ConanConf :=
  values.foldl (fun conf (key, value) => conf.set key value) conf

/-- The key and the value of a line, split at its first `=` after trimming. -/
def entryOfLine? (line : List Char) : Option (String × String) :=
  if line.head? = some '#' then none
  else
    (splitAtFirst '=' (trimList line)).map fun (key, value) =>
      (String.ofList key, String.ofList value)

def read (text : String) : ConanConf :=
  empty.setAll ((linesList text.toList).filterMap entryOfLine?)

def write (conf : ConanConf) : String :=
  String.join (conf.entries.map fun (key, value) => key ++ "=" ++ value ++ "\n")

end ConanConf

end CacheUpkeep
