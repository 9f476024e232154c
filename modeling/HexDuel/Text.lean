import HexDuel.Width

/-!
Plain text: white space, lines, fields and decimal numbers. Characters are taken as the Unicode
scalars they are; only the digits are the ASCII ones.
-/

set_option autoImplicit false

namespace HexDuel.Text

/-- The characters with the Unicode property White_Space. -/
def isWhite (c : Char) : Bool :=
  let n := c.toNat
  (9 ≤ n && n ≤ 13) || n == 0x20 || n == 0x85 || n == 0xA0 || n == 0x1680 ||
    (0x2000 ≤ n && n ≤ 0x200A) || n == 0x2028 || n == 0x2029 || n == 0x202F || n == 0x205F ||
    n == 0x3000

example : "\t\n\x0b\x0c\r \u0085\u00a0\u2003\u3000".toList.all isWhite = true := by decide

example : isWhite '\u200b' = false := by decide

def trimLeft (cs : List Char) : List Char := cs.dropWhile isWhite

def trimRight (cs : List Char) : List Char := (cs.reverse.dropWhile isWhite).reverse

def trim (cs : List Char) : List Char := trimRight (trimLeft cs)

/-- The parts between the separators, one more than there are separators. -/
def fields (separator : Char) : List Char → List (List Char)
  | [] => [[]]
  | c :: cs =>
    match fields separator cs with
    | [] => [[c]]
    | f :: fs => if c = separator then [] :: f :: fs else (c :: f) :: fs

theorem fields_ne_nil (separator : Char) (cs : List Char) : fields separator cs ≠ [] := by
  cases cs with
  | nil => simp [fields]
  | cons c cs =>
    rw [fields]
    split
    · simp
    · split <;> simp

/-- What stands before and behind the first separator. -/
def cut? (separator : Char) : List Char → Option (List Char × List Char)
  | [] => none
  | c :: cs => if c = separator then some ([], cs) else (cut? separator cs).map fun (a, b) => (c :: a, b)

/-- A line without the carriage return that ends it. -/
def dropReturn (cs : List Char) : List Char :=
  match cs.getLast? with
  | some '\r' => cs.dropLast
  | _ => cs

/-- Lines end with a line feed, or a carriage return and a line feed. A text that ends with a line
feed has no further line, and a carriage return that ends the last line stays. -/
def lines (cs : List Char) : List (List Char) :=
  let parts := fields '\n' cs
  let ended := parts.dropLast.map dropReturn
  match parts.getLast? with
  | some [] => ended
  | some last => ended ++ [last]
  | none => ended

example : lines "a\r\n\nb\r".toList = [['a'], [], ['b', '\r']] := by decide

def digits? (cs : List Char) : Option Nat :=
  if cs.isEmpty || !cs.all Char.isDigit then none else some (Nat.ofDigitChars 10 cs 0)

def nat? : List Char → Option Nat
  | '+' :: cs => digits? cs
  | cs => digits? cs

def int? : List Char → Option Int
  | '-' :: cs => (digits? cs).map fun n => -(n : Int)
  | cs => (nat? cs).map fun n => (n : Int)

def nat64? (cs : List Char) : Option Nat := (nat? cs).filter (· < Width.end64)

def padLeft (width : Nat) (s : String) : String :=
  String.ofList (List.replicate (width - s.length) ' ') ++ s

def padRight (width : Nat) (s : String) : String :=
  s ++ String.ofList (List.replicate (width - s.length) ' ')

end HexDuel.Text
