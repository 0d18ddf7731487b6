/-!
# Octets as text

Where a sequence of octets first departs from UTF-8, and the text that shows
every maximal ill-formed part as one replacement character.
-/

namespace CacheUpkeep.Text

/-- How octets fail to be UTF-8, with the number of octets before the fault. -/
inductive Utf8Fault where
  | invalid (length index : Nat)
  | incomplete (index : Nat)
deriving DecidableEq, Repr

def Utf8Fault.message : Utf8Fault → String
  | .invalid length index =>
      s!"invalid utf-8 sequence of {length} bytes from index {index}"
  | .incomplete index => s!"incomplete utf-8 byte sequence from index {index}"

/-- What a sequence of octets starts with, with its number of octets. -/
inductive Leading where
  | scalar (c : Char) (length : Nat)
  | invalid (length : Nat)
  | incomplete

def isContinuation (b : UInt8) : Bool :=
  0x80 ≤ b && b ≤ 0xBF

def continuationBits (b : UInt8) : Nat :=
  b.toNat % 64

/-- The least and the greatest second octet after a given first octet. -/
def secondRange (b : UInt8) : UInt8 × UInt8 :=
  if b = 0xE0 then (0xA0, 0xBF)
  else if b = 0xED then (0x80, 0x9F)
  else if b = 0xF0 then (0x90, 0xBF)
  else if b = 0xF4 then (0x80, 0x8F)
  else (0x80, 0xBF)

/-- What follows a first octet of a sequence of `length` octets. -/
def multiOctet (length : Nat) (first : UInt8) : List UInt8 → Leading
  | [] => .incomplete
  | second :: rest =>
      let (low, high) := secondRange first
      if second < low || high < second then .invalid 1
      else
        match length, rest with
        | 2, _ =>
            .scalar (Char.ofNat (first.toNat % 32 * 64 + continuationBits second)) 2
        | _, [] => .incomplete
        | 3, third :: _ =>
            if isContinuation third then
              .scalar (Char.ofNat (first.toNat % 16 * 4096 +
                continuationBits second * 64 + continuationBits third)) 3
            else .invalid 2
        | _, third :: rest =>
            if isContinuation third then
              match rest with
              | [] => .incomplete
              | fourth :: _ =>
                  if isContinuation fourth then
                    .scalar (Char.ofNat (first.toNat % 8 * 262144 +
                      continuationBits second * 4096 +
                      continuationBits third * 64 + continuationBits fourth)) 4
                  else .invalid 3
            else .invalid 2

def leading (first : UInt8) (rest : List UInt8) : Leading :=
  if first < 0x80 then .scalar (Char.ofNat first.toNat) 1
  else if 0xC2 ≤ first && first ≤ 0xDF then multiOctet 2 first rest
  else if 0xE0 ≤ first && first ≤ 0xEF then multiOctet 3 first rest
  else if 0xF0 ≤ first && first ≤ 0xF4 then multiOctet 4 first rest
  else .invalid 1

/-- The first fault of the octets, where `index` octets came before them. -/
def utf8FaultFrom (index : Nat) : List UInt8 → Option Utf8Fault
  | [] => none
  | first :: rest =>
      match leading first rest with
      | .scalar _ length => utf8FaultFrom (index + length) (rest.drop (length - 1))
      | .invalid length => some (.invalid length index)
      | .incomplete => some (.incomplete index)
termination_by octets => octets.length
decreasing_by simp only [List.length_drop, List.length_cons]; omega

/-- The text of the octets, or why they are none. -/
def decodeUtf8 (octets : ByteArray) : Except Utf8Fault String :=
  match String.fromUTF8? octets with
  | some text => .ok text
  | none => .error ((utf8FaultFrom 0 octets.toList).getD (.incomplete 0))

/-- Decodes octets, with one replacement character for each ill-formed part. -/
def decodeLossyList : List UInt8 → List Char
  | [] => []
  | first :: rest =>
      match leading first rest with
      | .scalar c length => c :: decodeLossyList (rest.drop (length - 1))
      | .invalid length => '\uFFFD' :: decodeLossyList (rest.drop (length - 1))
      | .incomplete => ['\uFFFD']
termination_by octets => octets.length
decreasing_by
  all_goals simp only [List.length_drop, List.length_cons]; omega

def decodeLossy (octets : ByteArray) : String :=
  String.ofList (decodeLossyList octets.toList)

/-- The text of the octets, with replacement characters only if they are none. -/
def lossyText (octets : ByteArray) : String :=
  (String.fromUTF8? octets).getD (decodeLossy octets)

theorem lossyText_toUTF8 (text : String) : lossyText text.toUTF8 = text := by
  have hdecoded : String.fromUTF8? text.toUTF8 = some text := dif_pos text.isValidUTF8
  rw [lossyText, hdecoded, Option.getD_some]

end CacheUpkeep.Text
