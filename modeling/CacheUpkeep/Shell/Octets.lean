import CacheUpkeep.Text.Utf8

/-!
# Texts of octets

A shell works on octets and not on characters.  Its texts are strings with one
character below 256 for each octet, and `ofText` and `toText` lead from the texts
of the rest of the library to them and back.
-/

namespace CacheUpkeep.Shell.Octets

open CacheUpkeep.Text

def ofBytes (bytes : ByteArray) : String :=
  String.ofList (bytes.toList.map fun b => Char.ofNat b.toNat)

def toBytes (text : String) : ByteArray :=
  (text.toList.map fun c => UInt8.ofNat c.toNat).toByteArray

def ofText (text : String) : String :=
  ofBytes text.toUTF8

/-- The text that octets are in UTF-8, with a replacement for what is none. -/
def toText (octets : String) : String :=
  decodeLossy (toBytes octets)

end CacheUpkeep.Shell.Octets
