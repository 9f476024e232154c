import HexDuel.Card

/-!
Collections, which targets resolve to, and what an event or a choice makes prominent.
-/

set_option autoImplicit false

namespace HexDuel

abbrev PieceId := Nat

inductive Collection where
  | cards (cards : List Card)
  | pieces (ids : List PieceId)
  | players (players : List Color)
  | hexes (hexes : List Hex)

namespace Collection

instance : Inhabited Collection := ⟨.pieces []⟩

def size : Collection → Nat
  | .cards xs => xs.length
  | .pieces xs => xs.length
  | .players xs => xs.length
  | .hexes xs => xs.length

def isEmpty (c : Collection) : Bool := c.size == 0

def kind : Collection → CollectionKind
  | .cards _ => .cards
  | .pieces _ => .pieces
  | .players _ => .players
  | .hexes _ => .hexes

def emptied : Collection → Collection
  | .cards _ => .cards []
  | .pieces _ => .pieces []
  | .players _ => .players []
  | .hexes _ => .hexes []

@[simp] theorem size_emptied (c : Collection) : c.emptied.size = 0 := by cases c <;> rfl

@[simp] theorem kind_emptied (c : Collection) : c.emptied.kind = c.kind := by cases c <;> rfl

def hasPiece (id : PieceId) : Collection → Bool
  | .pieces ids => ids.contains id
  | _ => false

def hasPlayer (color : Color) : Collection → Bool
  | .players xs => xs.contains color
  | _ => false

def asPlayers : Collection → Outcome (List Color)
  | .players xs => .ok xs
  | c => .error (.mismatch .players c.kind)

def asCards : Collection → Outcome (List Card)
  | .cards xs => .ok xs
  | c => .error (.mismatch .cards c.kind)

/-- The cells themselves; unlike for distances, objects do not stand for their cells here. -/
def asCells : Collection → Outcome (List Hex)
  | .hexes xs => .ok xs
  | c => .error (.mismatch .hexes c.kind)

def encode (c : Collection) : Json :=
  .obj [("kind", .str c.kind.name), ("entries",
    match c with
    | .cards xs => .ofList Card.encode xs
    | .pieces xs => .ofList .ofNat xs
    | .players xs => .ofList Color.encode xs
    | .hexes xs => .ofList Hex.encode xs)]

/-- Whether the kind is not known yet when the entries are met. -/
def kindComesLater : Json → Bool
  | .obj members =>
    (members.find? fun m => m.1 == "kind" || m.1 == "entries").map (·.1) == some "entries"
  | _ => false

/-- Entries that come before their kind have to be kept, and so every part of them has to be one
that can be used. -/
def decode (v : Json) : Option Collection := do
  if kindComesLater v && !(v.field "entries").isClean then none
  let [kind, entries] ← v.record? ["kind", "entries"] | none
  match ← kind.required (Json.named? CollectionKind.name CollectionKind.all) with
  | .cards => return .cards (← entries.required (Json.list? Card.decode))
  | .pieces => return .pieces (← entries.required (Json.list? Json.nat64?))
  | .players => return .players (← entries.required (Json.list? Color.decode))
  | .hexes => return .hexes (← entries.required (Json.list? Hex.decode))

end Collection

/-- An object or a card that an event or a choice made prominent. -/
inductive Salient where
  | piece (id : PieceId)
  | card (card : Card)

namespace Salient

def encode : Salient → Json
  | .piece i => .tagged "object" (.ofNat i)
  | .card c => .tagged "card" c.encode

def decode (v : Json) : Option Salient := do
  let (name, data) ← v.variant?
  match name with
  | "object" => return .piece (← (← data).nat64?)
  | "card" => return .card (← Card.decode (← data))
  | _ => none

end Salient
end HexDuel
