import HexDuel.Collection

/-!
What belongs to one player: hand, deck and discard pile, energy, and the record of the targets that
the player is asked for and has named.
-/

set_option autoImplicit false

namespace HexDuel

structure Energy where
  available : Int
  total : Int
  deriving DecidableEq, Repr

namespace Energy

def encode (e : Energy) : Json := .obj [("available", .int e.available), ("total", .int e.total)]

def decode (v : Json) : Option Energy := do
  let [available, total] ← v.record? ["available", "total"] | none
  return ⟨← available.required Json.int32?, ← total.required Json.int32?⟩

end Energy

inductive Choice where
  | hex (hex : Hex)
  | card (id : CardId)
  deriving DecidableEq, Repr

namespace Choice

def encode : Choice → Json
  | .hex h => .tagged "hex" h.encode
  | .card i => .tagged "card" (.str i)

def decode (v : Json) : Option Choice := do
  let (name, data) ← v.variant?
  match name with
  | "hex" => return .hex (← Hex.decode (← data))
  | "card" => return .card (← (← data).text?)
  | _ => none

end Choice

/-- The targets on offer, and those named so far, which are used up from the front. -/
structure Selection where
  choosing : Bool
  hexes : List Hex
  cards : List CardId
  chosen : List Choice
  deriving DecidableEq, Repr

namespace Selection

def none : Selection := ⟨false, [], [], []⟩

/-- No prompt, and these answers to use. -/
def answering (chosen : List Choice) : Selection := { none with chosen := chosen }

def allows (s : Selection) : Choice → Bool
  | .hex h => s.hexes.contains h
  | .card i => s.cards.contains i

@[simp] theorem allows_none (c : Choice) : none.allows c = false := by cases c <;> rfl

def encode (s : Selection) : Json :=
  .obj [("choosing", .bool s.choosing), ("possible_hexes", .ofList Hex.encode s.hexes),
    ("possible_cards", .ofList .str s.cards), ("chosen", .ofList Choice.encode s.chosen)]

def decode (v : Json) : Option Selection := do
  let [choosing, hexes, cards, chosen] ←
    v.record? ["choosing", "possible_hexes", "possible_cards", "chosen"] | Option.none
  return {
    choosing := ← choosing.required Json.bool?
    hexes := ← hexes.required (Json.list? Hex.decode)
    cards := ← cards.required (Json.list? Json.text?)
    chosen := ← chosen.required (Json.list? Choice.decode) }

end Selection

/-- A player's side of the match. Decks are drawn from the front, and discards go to the end. -/
structure Seat where
  color : Color
  hand : List Card
  deck : List Card
  discard : List Card
  energy : Energy
  selection : Selection
  status : String

namespace Seat

def new (color : Color) (deck : List Card) : Seat where
  color := color
  hand := []
  deck := deck
  discard := []
  energy := ⟨0, 0⟩
  selection := .none
  status := ""

def setEnergy (energy : Energy) (s : Seat) : Seat := { s with energy := energy }

def setAvailable (available : Int) (s : Seat) : Seat :=
  s.setEnergy { s.energy with available := available }

def cardInHand? (s : Seat) (id : CardId) : Option Card := s.hand.find? (·.id == id)

def changeFirst (id : CardId) (f : Card → Card) : List Card → List Card
  | [] => []
  | c :: cs => if c.id == id then f c :: cs else c :: changeFirst id f cs

def encode (s : Seat) : Json :=
  .obj [("color", s.color.encode), ("hand", .ofList Card.encode s.hand),
    ("deck", .ofList Card.encode s.deck), ("discard_pile", .ofList Card.encode s.discard),
    ("energy", s.energy.encode), ("target", s.selection.encode),
    ("status_message", .str s.status)]

def decode (v : Json) : Option Seat := do
  let [color, hand, deck, discard, energy, selection, status] ←
    v.record? ["color", "hand", "deck", "discard_pile", "energy", "target", "status_message"]
    | none
  return {
    color := ← color.required Color.decode
    hand := ← hand.required (Json.list? Card.decode)
    deck := ← deck.required (Json.list? Card.decode)
    discard := ← discard.required (Json.list? Card.decode)
    energy := ← energy.required Energy.decode
    selection := ← selection.required Selection.decode
    status := ← status.required Json.text? }

end Seat
end HexDuel
