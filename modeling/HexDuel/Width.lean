/-!
How far numbers reach that have 32 or 64 bits.
-/

set_option autoImplicit false

namespace HexDuel.Width

/-- Numbers of 32 bits without a sign are below this one. -/
abbrev end32 : Nat := 4294967296

/-- Numbers of 64 bits without a sign are below this one. -/
abbrev end64 : Nat := 18446744073709551616

abbrev least32 : Int := -2147483648

abbrev most32 : Int := 2147483647

abbrev least64 : Int := -9223372036854775808

abbrev most64 : Int := 9223372036854775807

example : end32 = 1 <<< 32 ∧ end64 = 1 <<< 64 := by decide

example : most32 - least32 + 1 = end32 ∧ most64 - least64 + 1 = end64 := by decide

end HexDuel.Width
