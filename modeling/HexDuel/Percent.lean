import HexDuel.Text

/-!
Shares in percent, written with one decimal. A share is computed with 53 binary digits: the quotient
is rounded to the nearest such number, and its hundredfold again. The text is the exact value of the
result, rounded to tenths. A tie always goes to the even neighbour.
-/

set_option autoImplicit false

namespace HexDuel

/-- The number nearest to a quotient, the even one of two. -/
def roundDiv (num den : Nat) : Nat :=
  let whole := num / den
  let rest := num % den
  if 2 * rest < den then whole
  else if den < 2 * rest then whole + 1
  else whole + whole % 2

example : roundDiv 5 2 = 2 ∧ roundDiv 7 2 = 4 ∧ roundDiv 8 3 = 3 := by decide

theorem roundDiv_near {num den : Nat} (h : 0 < den) :
    2 * num ≤ (2 * roundDiv num den + 1) * den ∧ 2 * roundDiv num den * den ≤ 2 * num + den := by
  have hn : den * (num / den) + num % den = num := Nat.div_add_mod num den
  have hr : num % den < den := Nat.mod_lt num h
  have he : num / den % 2 = 0 ∨ num / den % 2 = 1 := Nat.mod_two_eq_zero_or_one _
  simp only [roundDiv]
  generalize num / den = whole at *
  generalize num % den = rest at *
  subst hn
  split
  · constructor <;> grind
  · split
    · constructor <;> grind
    · rcases he with he | he <;> rw [he] <;> constructor <;> grind

/-- The number `digits / 2 ^ places`. -/
structure Binary where
  digits : Nat
  places : Nat
  deriving DecidableEq, Repr

namespace Binary

/-- So many places give a quotient below `2 ^ 52` its 53 digits. -/
def placesOf (num den : Nat) : Nat :=
  let places := 52 + den.log2 - num.log2
  if num <<< places < den <<< 52 then places + 1 else places

def ofQuotient (num den : Nat) : Binary :=
  let places := placesOf num den
  ⟨roundDiv (num <<< places) den, places⟩

def timesHundred (b : Binary) : Binary := ofQuotient (100 * b.digits) (1 <<< b.places)

def floor (b : Binary) : Nat := b.digits >>> b.places

def half (b : Binary) : Binary := { b with places := b.places + 1 }

def tenths (b : Binary) : Nat := roundDiv (10 * b.digits) (1 <<< b.places)

def toText (b : Binary) : String := s!"{b.tenths / 10}.{b.tenths % 10}"

end Binary

/-- Nothing has no shares. -/
def percent? (part whole : Nat) : Option Binary :=
  if whole = 0 then none else some (Binary.ofQuotient part whole).timesHundred

example : (percent? 1 16).map Binary.toText = some "6.2" := by decide +kernel

example : (percent? 2 3).map Binary.toText = some "66.7" := by decide +kernel

/-- A share at least five characters wide. -/
def percentText (share : Option Binary) : String :=
  Text.padLeft 5 ((share.map Binary.toText).getD "NaN")

end HexDuel
