/-!
# Sizes of words

How many values a word of some number of bits has, written out.
-/

namespace HistoryKeeper.Word

/-- 2^31 -/
abbrev size31 : Nat := 2147483648

/-- 2^32 -/
abbrev size32 : Nat := 4294967296

/-- 2^63 -/
abbrev size63 : Nat := 9223372036854775808

/-- 2^64 -/
abbrev size64 : Nat := 18446744073709551616

end HistoryKeeper.Word
