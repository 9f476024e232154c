import HexDuel.Card
import HexDuel.Json.Reader

/-!
Card libraries, and the deck lists that are written with their names.
-/

set_option autoImplicit false

namespace HexDuel

inductive LibraryError where
  /-- The text is not a list of card entries. -/
  | unreadable
  | statsMissing (name : String) (type : CardType)
  | notFound (name : String)
  | lineFormat (line : Nat)
  | lineCount (line : Nat) (text : String)
  deriving DecidableEq, Repr

namespace LibraryError

def message : LibraryError → String
  | .unreadable => "JSON parsing error: not a list of card entries"
  | .statsMissing name type => s!"Invalid card data: {name} is a {type.name} but has no stats"
  | .notFound name => s!"Card not found: {name}"
  | .lineFormat line => s!"Invalid deck format at line {line}: Expected format: 'COUNT CARD_NAME'"
  | .lineCount line text => s!"Invalid deck format at line {line}: '{text}' is not a valid number"

end LibraryError

/-- Card entries, each under a name of its own. -/
structure Library where
  entries : List CardEntry

namespace Library

def find? (l : Library) (name : String) : Option CardEntry := l.entries.find? (·.name == name)

/-- Takes the place of an entry of the same name. -/
def insert (l : Library) (e : CardEntry) : Library :=
  ⟨l.entries.filter (·.name != e.name) ++ [e]⟩

theorem find?_insert_self (l : Library) (e : CardEntry) : (l.insert e).find? e.name = some e := by
  have h : (l.entries.filter (·.name != e.name)).find? (·.name == e.name) = none := by
    simp [List.find?_eq_none]
  simp [find?, insert, List.find?_append, h]

/-- Cards that stand on the board need numbers. -/
def ofEntries (entries : List CardEntry) : Except LibraryError Library :=
  entries.foldlM (fun l e =>
    if e.type.isPiece && e.stats.isNone then throw (.statsMissing e.name e.type)
    else pure (l.insert e)) ⟨[]⟩

def parse (text : String) : Except LibraryError Library :=
  match (Json.parse text).bind (Json.list? CardEntry.decode) with
  | none => throw .unreadable
  | some entries => ofEntries entries

def get (l : Library) (name : String) : Except LibraryError CardEntry :=
  match l.find? name with
  | some e => pure e
  | none => throw (.notFound name)

def size (l : Library) : Nat := l.entries.length

/-- The names in the order of their code points. -/
def names (l : Library) : List String :=
  (l.entries.map (·.name)).mergeSort fun a b => !decide (b < a)

/-! ### Decks -/

def copies (made : List (String × Nat)) (name : String) : Nat := (made.lookup name).getD 0

/-- Every copy of a card has a number of its own in its id. -/
def buildFrom (l : Library) : List (String × Nat) → List String → Except LibraryError (List Card)
  | _, [] => pure []
  | made, name :: rest => do
    let e ← l.get name
    let n := copies made name + 1
    let cards ← buildFrom l ((name, n) :: made.filter (·.1 != name)) rest
    return e.instantiate s!"{name}#{n}" :: cards

def buildDeck (l : Library) (names : List String) : Except LibraryError (List Card) :=
  l.buildFrom [] names

/-! ### Deck lists -/

def isSkipped (line : List Char) : Bool :=
  line.isEmpty || line.head? == some '#' || ['/', '/'].isPrefixOf line

/-- Count and name of a line that is trimmed and not skipped. -/
def parseLine (l : Library) (number : Nat) (line : List Char) :
    Except LibraryError (Nat × String) :=
  match Text.cut? ' ' line with
  | none => throw (.lineFormat number)
  | some (count, name) =>
    match Text.nat64? count with
    | none => throw (.lineCount number (String.ofList count))
    | some n => do
      let name := String.ofList (Text.trim name)
      let _ ← l.get name
      return (n, name)

def parseLines (l : Library) : Nat → List (List Char) → Except LibraryError (List String)
  | _, [] => pure []
  | number, line :: rest => do
    let line := Text.trim line
    if isSkipped line then parseLines l (number + 1) rest
    else do
      let (n, name) ← l.parseLine number line
      return List.replicate n name ++ (← parseLines l (number + 1) rest)

/-- The names in a deck list, each as often as its line says. Blank lines and those that start with
`#` or `//` are skipped. -/
def parseDeckList (l : Library) (text : String) : Except LibraryError (List String) :=
  l.parseLines 1 (Text.lines text.toList)

end Library
end HexDuel
