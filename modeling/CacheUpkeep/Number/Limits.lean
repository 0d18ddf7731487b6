/-!
# Limits of sized integers

The first natural numbers beyond the sized formats, written out as literals so
that arithmetic on them needs no powers.
-/

namespace CacheUpkeep.Number

/-- The first number that needs more than 32 bits. -/
abbrev limit32 : Nat := 4294967296

/-- The first number that needs more than 64 bits. -/
abbrev limit64 : Nat := 18446744073709551616

/-- Signed integers of 64 bits reach from the negative of this number to just below it. -/
abbrev signedLimit64 : Nat := 9223372036854775808

end CacheUpkeep.Number
