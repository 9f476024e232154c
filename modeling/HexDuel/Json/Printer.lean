import HexDuel.Json.Value

/-!
Printing of JSON values, compact and indented by two spaces. Each writer puts its text in front of
what follows, so that printing and reading meet at the same rest.
-/

set_option autoImplicit false

namespace HexDuel.Json

def hexDigit (n : Nat) : Char := Nat.digitChar n

/-- Quotes, backslashes and control characters are escaped, all else stands for itself. -/
def escapeChar (c : Char) : List Char :=
  if c = '"' then ['\\', '"']
  else if c = '\\' then ['\\', '\\']
  else if c = '\n' then ['\\', 'n']
  else if c = '\t' then ['\\', 't']
  else if c = '\r' then ['\\', 'r']
  else if c = '\x08' then ['\\', 'b']
  else if c = '\x0c' then ['\\', 'f']
  else if c.toNat < 32 then
    ['\\', 'u', '0', '0', hexDigit (c.toNat / 16), hexDigit (c.toNat % 16)]
  else [c]

def writeText (s : String) (rest : List Char) : List Char :=
  '"' :: (s.toList.flatMap escapeChar ++ '"' :: rest)

def writeInt (i : Int) (rest : List Char) : List Char :=
  if i < 0 then '-' :: (Nat.toDigits 10 i.natAbs ++ rest) else Nat.toDigits 10 i.natAbs ++ rest

def writeWord (w : String) (rest : List Char) : List Char := w.toList ++ rest

/-- A number whose digits are not kept is written as zero, with a fraction, so that it is read as
one again; what cannot be used is written as `null`. -/
def writeAtom : Json → List Char → List Char
  | .real, rest => writeWord "0.0" rest
  | .bool true, rest => writeWord "true" rest
  | .bool false, rest => writeWord "false" rest
  | .int i, rest => writeInt i rest
  | .str s, rest => writeText s rest
  | _, rest => writeWord "null" rest

mutual
def write : Json → List Char → List Char
  | .arr items, rest => '[' :: writeItems items (']' :: rest)
  | .row items, rest => '[' :: writeItems items (']' :: rest)
  | .obj members, rest => '\x7b' :: writeMembers members ('\x7d' :: rest)
  | v, rest => writeAtom v rest

def writeItems : List Json → List Char → List Char
  | [], rest => rest
  | v :: vs, rest => v.write (writeMoreItems vs rest)

def writeMoreItems : List Json → List Char → List Char
  | [], rest => rest
  | v :: vs, rest => ',' :: v.write (writeMoreItems vs rest)

def writeMembers : List (String × Json) → List Char → List Char
  | [], rest => rest
  | (k, v) :: ms, rest => writeText k (':' :: v.write (writeMoreMembers ms rest))

def writeMoreMembers : List (String × Json) → List Char → List Char
  | [], rest => rest
  | (k, v) :: ms, rest => ',' :: writeText k (':' :: v.write (writeMoreMembers ms rest))
end

/-- The text without any blank between its parts. -/
def compact (v : Json) : String := String.ofList (v.write [])

def newline (level : Nat) (rest : List Char) : List Char :=
  '\n' :: (List.replicate (2 * level) ' ' ++ rest)

mutual
def writeIndented (level : Nat) : Json → List Char → List Char
  | .arr [], rest => '[' :: ']' :: rest
  | .row [], rest => '[' :: ']' :: rest
  | .arr (v :: vs), rest =>
    '[' :: newline (level + 1) (v.writeIndented (level + 1)
      (writeIndentedItems (level + 1) vs (newline level (']' :: rest))))
  | .row (v :: vs), rest =>
    '[' :: newline (level + 1) (v.writeIndented (level + 1)
      (writeIndentedItems (level + 1) vs (newline level (']' :: rest))))
  | .obj [], rest => '\x7b' :: '\x7d' :: rest
  | .obj ((k, v) :: ms), rest =>
    '\x7b' :: newline (level + 1) (writeText k (':' :: ' ' :: v.writeIndented (level + 1)
      (writeIndentedMembers (level + 1) ms (newline level ('\x7d' :: rest)))))
  | v, rest => writeAtom v rest

def writeIndentedItems (level : Nat) : List Json → List Char → List Char
  | [], rest => rest
  | v :: vs, rest =>
    ',' :: newline level (v.writeIndented level (writeIndentedItems level vs rest))

def writeIndentedMembers (level : Nat) : List (String × Json) → List Char → List Char
  | [], rest => rest
  | (k, v) :: ms, rest =>
    ',' :: newline level (writeText k (':' :: ' ' :: v.writeIndented level
      (writeIndentedMembers level ms rest)))
end

/-- One part to a line, two spaces deeper in every container. -/
def indented (v : Json) : String := String.ofList (v.writeIndented 0 [])

end HexDuel.Json
