import HexDuel.Piece

/-!
The board: objects by ascending id, each with the cell it stands on.
-/

set_option autoImplicit false

namespace HexDuel

structure Board where
  entries : List (PieceId × Piece)

namespace Board

def empty : Board := ⟨[]⟩

def ids (b : Board) : List PieceId := b.entries.map (·.1)

def pieces (b : Board) : List Piece := b.entries.map (·.2)

def size (b : Board) : Nat := b.entries.length

def get? (b : Board) (id : PieceId) : Option Piece := b.entries.lookup id

def contains (b : Board) (id : PieceId) : Bool := (b.get? id).isSome

def pieceAt? (b : Board) (hex : Hex) : Option Piece := b.pieces.find? (·.hex == hex)

def occupied (b : Board) (hex : Hex) : Bool := (b.pieceAt? hex).isSome

def idAt? (b : Board) (hex : Hex) : Option PieceId := (b.pieceAt? hex).map (·.id)

def piecesOf (b : Board) (owner : Color) : List Piece := b.pieces.filter (·.owner == owner)

def coreOf? (b : Board) (owner : Color) : Option Piece :=
  (b.piecesOf owner).find? (·.type == .core)

def hasCore (b : Board) (owner : Color) : Bool := (b.coreOf? owner).isSome

def modify (b : Board) (id : PieceId) (f : Piece → Piece) : Board :=
  ⟨b.entries.map fun e => if e.1 == id then (e.1, f e.2) else e⟩

def mapPieces (b : Board) (f : Piece → Piece) : Board :=
  ⟨b.entries.map fun e => (e.1, f e.2)⟩

@[simp] theorem ids_modify (b : Board) (id : PieceId) (f : Piece → Piece) :
    (b.modify id f).ids = b.ids := by
  simp only [ids, modify, List.map_map]
  congr 1
  funext e
  simp only [Function.comp]
  split <;> rfl

@[simp] theorem ids_mapPieces (b : Board) (f : Piece → Piece) : (b.mapPieces f).ids = b.ids := by
  simp [ids, mapPieces]

@[simp] theorem pieces_mapPieces (b : Board) (f : Piece → Piece) :
    (b.mapPieces f).pieces = b.pieces.map f := by
  simp [pieces, mapPieces]

def erase (b : Board) (id : PieceId) : Board := ⟨b.entries.filter (·.1 != id)⟩

def insertEntry (id : PieceId) (p : Piece) : List (PieceId × Piece) → List (PieceId × Piece)
  | [] => [(id, p)]
  | (k, q) :: rest =>
    if id < k then (id, p) :: (k, q) :: rest
    else if id = k then (id, p) :: rest
    else (k, q) :: insertEntry id p rest

/-- Takes the place of an object of the same id. -/
def insert (b : Board) (id : PieceId) (p : Piece) : Board := ⟨insertEntry id p b.entries⟩

/-- Nothing may stand on the object's cell, nor may its id be in use. -/
def place? (b : Board) (p : Piece) : Option Board :=
  if b.occupied p.hex || b.contains p.id then none else some (b.insert p.id p)

def enter (p : Piece) (b : Board) : Board := (b.place? p).getD b

/-! ### Text -/

def encode (b : Board) : Json :=
  .obj [("objects", .obj (b.entries.map fun (id, p) => (toString id, p.encode)))]

/-- An id as the name of a member: decimal digits without a leading zero. -/
def idOfName (name : String) : Option PieceId :=
  let cs := name.toList
  if 1 < cs.length && cs.head? == some '0' then none
  else (Text.digits? cs).filter (· < Width.end64)

def decodeEntry (member : String × Json) : Option (PieceId × Piece) := do
  return (← idOfName member.1, ← Piece.decode member.2)

def decodeEntries : Json → Option Board
  | .obj members => do
    let entries ← members.mapM decodeEntry
    return entries.foldl (fun b e => b.insert e.1 e.2) empty
  | _ => none

def decode (v : Json) : Option Board := do
  let [entries] ← v.record? ["objects"] | none
  entries.required decodeEntries

end Board
end HexDuel
