import HexDuel.Json.Value
import HexDuel.Width

/-!
Reading of JSON texts. The grammar is the strict one: blanks are space, tab, line feed and carriage
return, no trailing commas, no leading zeros, nothing before or after the value.
-/

set_option autoImplicit false

namespace HexDuel.Json

def isBlank (c : Char) : Bool := c == ' ' || c == '\t' || c == '\n' || c == '\r'

def skipBlank (cs : List Char) : List Char := cs.dropWhile isBlank

theorem skipBlank_cons {c : Char} (h : isBlank c = false) (cs : List Char) :
    skipBlank (c :: cs) = c :: cs := by simp [skipBlank, h]

/-! ### Quoted texts -/

/-- A character of a quoted text as it is written: itself, or the number in a `\u` escape. -/
inductive Written where
  | char (c : Char)
  | code (n : Nat)
  deriving DecidableEq, Repr

def hexValue (c : Char) : Option Nat :=
  if '0' ≤ c ∧ c ≤ '9' then some (c.toNat - '0'.toNat)
  else if 'a' ≤ c ∧ c ≤ 'f' then some (c.toNat - 'a'.toNat + 10)
  else if 'A' ≤ c ∧ c ≤ 'F' then some (c.toNat - 'A'.toNat + 10)
  else none

def hexNumber : List Char → Option Nat :=
  List.foldlM (fun n c => (hexValue c).map (16 * n + ·)) 0

def plainEscape (c : Char) : Option Char :=
  if c = '"' then some '"'
  else if c = '\\' then some '\\'
  else if c = '/' then some '/'
  else if c = 'b' then some '\x08'
  else if c = 'f' then some '\x0c'
  else if c = 'n' then some '\n'
  else if c = 'r' then some '\r'
  else if c = 't' then some '\t'
  else none

/-- What stands before the closing quote, last first. -/
def readWritten : List Written → List Char → Option (List Written × List Char)
  | _, [] => none
  | back, c :: cs =>
    if c = '"' then some (back, cs)
    else if c.toNat < 32 then none
    else if c = '\\' then
      match cs with
      | [] => none
      | e :: cs =>
        match plainEscape e with
        | some d => readWritten (.char d :: back) cs
        | none =>
          if e = 'u' then
            match cs with
            | a :: b :: x :: y :: cs =>
              match hexNumber [a, b, x, y] with
              | some n => readWritten (.code n :: back) cs
              | none => none
            | _ => none
          else none
    else readWritten (.char c :: back) cs

def isHighHalf (n : Nat) : Bool := 0xD800 ≤ n && n ≤ 0xDBFF

def isLowHalf (n : Nat) : Bool := 0xDC00 ≤ n && n ≤ 0xDFFF

/-- Joins the two halves of a character above the basic plane; a half that stands alone has no
text. -/
def joinHalves : List Written → List Char → Option (List Char)
  | [], out => some out
  | .char c :: back, out => joinHalves back (c :: out)
  | .code n :: back, out =>
    if isLowHalf n then
      match back with
      | .code h :: back =>
        if isHighHalf h then
          joinHalves back (Char.ofNat (0x10000 + (h - 0xD800) * 0x400 + (n - 0xDC00)) :: out)
        else none
      | _ => none
    else if isHighHalf n then none
    else joinHalves back (Char.ofNat n :: out)

/-- Reads from behind the opening quote. The text is `none` when it is grammatical and cannot be
used. -/
def readText (cs : List Char) : Option (Option String × List Char) :=
  (readWritten [] cs).map fun (back, rest) => ((joinHalves back []).map String.ofList, rest)

/-! ### Numbers -/

def numberOf (digits : List Char) : Nat := Nat.ofDigitChars 10 digits 0

/-- Where rounding to a double leaves the finite numbers. -/
def doubleLimit : Nat := 1 <<< 1024 - 1 <<< 970

/-- The value of a number that is not written as a 64-bit integer. -/
def realValue (mantissa : Nat) (exponent : Int) (digits : Nat) : Json :=
  if mantissa = 0 then .real
  else if 0 ≤ exponent then
    if exponent ≤ 400 ∧ mantissa * Nat.pow 10 exponent.toNat < doubleLimit then .real else .unreadable
  else if 400 + (digits : Int) < -exponent ∨
      mantissa < doubleLimit * Nat.pow 10 (-exponent).toNat then .real
  else .unreadable

/-- A written zero with a minus sign is not an integer. -/
def integerValue (negative : Bool) (digits : List Char) : Json :=
  let m := numberOf digits
  if negative then
    if 0 < m ∧ Width.least64 ≤ -m then .int (-m) else realValue m 0 digits.length
  else if m < Width.end64 then .int m
  else realValue m 0 digits.length

def readDigits (cs : List Char) : Option (List Char × List Char) :=
  match cs.span Char.isDigit with
  | ([], _) => none
  | r => some r

def readFraction : List Char → Option (List Char × List Char)
  | '.' :: cs => readDigits cs
  | cs => some ([], cs)

def readExponent : List Char → Option (Int × List Char)
  | [] => some (0, [])
  | c :: cs =>
    if c = 'e' ∨ c = 'E' then
      match cs with
      | '-' :: cs => (readDigits cs).map fun (ds, rest) => (-(numberOf ds : Int), rest)
      | '+' :: cs => (readDigits cs).map fun (ds, rest) => ((numberOf ds : Int), rest)
      | cs => (readDigits cs).map fun (ds, rest) => ((numberOf ds : Int), rest)
    else some (0, c :: cs)

def isRealMark (c : Char) : Bool := c == '.' || c == 'e' || c == 'E'

def readUnsigned (negative : Bool) (cs : List Char) : Option (Json × List Char) := do
  let (whole, cs) ← readDigits cs
  if whole.length > 1 && whole.head? == some '0' then none
  else if (cs.head?.map isRealMark).getD false then
    let (fraction, cs) ← readFraction cs
    let (exponent, cs) ← readExponent cs
    let digits := whole ++ fraction
    some (realValue (numberOf digits) (exponent - fraction.length) digits.length, cs)
  else some (integerValue negative whole, cs)

def readNumber : List Char → Option (Json × List Char)
  | '-' :: cs => readUnsigned true cs
  | cs => readUnsigned false cs

/-! ### Values -/

def readWord (w : List Char) (v : Json) (cs : List Char) : Option (Json × List Char) :=
  if w.isPrefixOf cs then some (v, cs.drop w.length) else none

def expect (mark : Char) (cs : List Char) : Option (List Char) :=
  match skipBlank cs with
  | c :: rest => if c = mark then some rest else none
  | [] => none

/-- A container that stands inside as many as are allowed can only be skipped. -/
def sealed (room : Nat) (v : Json) : Json := if room = 0 then .unreadable else v

def addMember (key : Option String) (v : Json) (ms : Option (List (String × Json))) :
    Option (List (String × Json)) := do
  let k ← key
  return (k, v) :: (← ms)

mutual
/-- Reads one value; `room` is how many containers may still be opened. -/
def readValue : Nat → Nat → List Char → Option (Json × List Char)
  | 0, _, _ => none
  | fuel + 1, room, cs =>
    match skipBlank cs with
    | [] => none
    | c :: rest =>
      if c = '"' then
        (readText rest).map fun (text, rest) => ((text.map Json.str).getD .unreadable, rest)
      else if c = '[' then
        match expect ']' rest with
        | some rest => some (sealed room (.arr []), rest)
        | none =>
          (readItems fuel (room - 1) rest).map fun (vs, rest) => (sealed room (.arr vs), rest)
      else if c = '\x7b' then
        match expect '\x7d' rest with
        | some rest => some (sealed room (.obj []), rest)
        | none =>
          (readMembers fuel (room - 1) rest).map fun (ms, rest) =>
            (sealed room ((ms.map Json.obj).getD .unreadable), rest)
      else if c = 'n' then readWord ['u', 'l', 'l'] .null rest
      else if c = 't' then readWord ['r', 'u', 'e'] (.bool true) rest
      else if c = 'f' then readWord ['a', 'l', 's', 'e'] (.bool false) rest
      else readNumber (c :: rest)

/-- One value or more, up to the closing bracket. -/
def readItems : Nat → Nat → List Char → Option (List Json × List Char)
  | 0, _, _ => none
  | fuel + 1, room, cs =>
    match readValue fuel room cs with
    | none => none
    | some (v, rest) =>
      match expect ']' rest with
      | some rest => some ([v], rest)
      | none =>
        match expect ',' rest with
        | none => none
        | some rest => (readItems fuel room rest).map fun (vs, rest) => (v :: vs, rest)

/-- One member or more, up to the closing brace; `none` inside when a name cannot be used. -/
def readMembers : Nat → Nat → List Char → Option (Option (List (String × Json)) × List Char)
  | 0, _, _ => none
  | fuel + 1, room, cs =>
    match expect '"' cs with
    | none => none
    | some rest =>
      match readText rest with
      | none => none
      | some (key, rest) =>
        match expect ':' rest with
        | none => none
        | some rest =>
          match readValue fuel room rest with
          | none => none
          | some (v, rest) =>
            match expect '\x7d' rest with
            | some rest => some (addMember key v (some []), rest)
            | none =>
              match expect ',' rest with
              | none => none
              | some rest =>
                (readMembers fuel room rest).map fun (ms, rest) => (addMember key v ms, rest)
end

/-- How many containers may stand inside one another. -/
def maxDepth : Nat := 127

def parse (text : String) : Option Json :=
  let cs := text.toList
  match readValue (2 * cs.length + 2) maxDepth cs with
  | some (v, rest) => if (skipBlank rest).isEmpty then some v else none
  | none => none

/-- The value of a text all of whose parts are used, as one value with parts. -/
def parseSettled (text : String) : Option Json :=
  match parse text with
  | some v => if v.isClean then some v.settled else none
  | none => none

end HexDuel.Json
