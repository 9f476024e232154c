import HexDuel.Match

/-!
Where cards can be placed, where an object can move, and what it can attack. Movement is a search in
layers, so cells come out by the length of the shortest path to them.
-/

set_option autoImplicit false

namespace HexDuel

/-- The cells that are found next: neighbours of the last layer that may be entered and were not
found before. -/
def Hex.nextLayer (enter : Hex → Bool) (found layer : List Hex) : List Hex :=
  ((layer.flatMap Hex.neighbors).filter fun h => enter h && !found.contains h).eraseDups

/-- All cells at most `steps` steps behind the layer, in the order in which they are found. -/
def Hex.search (enter : Hex → Bool) : Nat → List Hex → List Hex → List Hex
  | 0, found, _ => found
  | steps + 1, found, layer =>
    let next := nextLayer enter found layer
    if next.isEmpty then found else search enter steps (found ++ next) next

theorem Hex.onBoard_of_mem_nextLayer {enter : Hex → Bool} {found layer : List Hex} {h : Hex}
    (hm : h ∈ nextLayer enter found layer) : h.onBoard = true := by
  have hm := List.mem_filter.1 (List.mem_eraseDups.1 hm)
  obtain ⟨a, _, ha⟩ := List.mem_flatMap.1 hm.1
  exact onBoard_of_mem_neighbors ha

namespace Match

/-- Where a player can place a card of that type: robots on fixed cells, structures next to what
the player owns. -/
def placementHexes (m : Match) (player : Color) (type : CardType) : List Hex :=
  let candidates : List Hex :=
    match type with
    | .robot => player.placements
    | .building => (m.board.piecesOf player).flatMap fun p => p.hex.neighbors
    | .event | .core => []
  (candidates.filter fun h => !m.board.occupied h).eraseDups

theorem not_occupied_of_mem_placementHexes {m : Match} {player : Color} {type : CardType} {h : Hex}
    (hm : h ∈ m.placementHexes player type) : m.board.occupied h = false := by
  have hm := (List.mem_filter.1 (List.mem_eraseDups.1 hm)).2
  simpa using hm

def reachable (m : Match) (steps : Nat) (throughPieces : Bool) (start : Hex) : List Hex :=
  let enter := fun h => throughPieces || !m.board.occupied h
  (Hex.search enter steps [start] [start]).filter fun h => !m.board.occupied h

def movementHexes (m : Match) (start : Hex) : Outcome (List Hex) :=
  match m.board.pieceAt? start with
  | none => .ok []
  | some p => do return m.reachable (← p.movesLeft).toNat p.canMoveOverPieces start

def mayAttack (m : Match) (attacker : Piece) (hex : Hex) : Outcome Bool :=
  match m.board.pieceAt? hex with
  | none => .ok false
  | some defender =>
    if defender.owner != attacker.owner && attacker.type == .robot && !attacker.cantAttack &&
        !attacker.hasStatus .cannotAttack then do
      return 0 < (← attacker.attack) &&
        (attacker.attackRestriction.map (·.contains defender.id)).getD true
    else .ok false

/-- The cells next to any of these, each once. -/
def bordering (hexes : List Hex) : List Hex := (hexes.flatMap Hex.neighbors).eraseDups

/-- What the object on the cell can attack, from there or after a move. -/
def attackHexes (m : Match) (start : Hex) : Outcome (List Hex) :=
  match m.board.pieceAt? start with
  | none => .ok []
  | some attacker => do
    let stops ← m.movementHexes start
    (bordering (start :: stops)).filterM (m.mayAttack attacker)

/-- All cells on which the object on the cell can act. -/
def actionHexes (m : Match) (start : Hex) : Outcome (List Hex) :=
  match m.board.pieceAt? start with
  | none => .ok []
  | some p => do
    let moves ← m.movementHexes start
    let attacks ← m.attackHexes start
    let own := if !p.activations.isEmpty && !p.cantActivate then [start] else []
    return moves ++ attacks ++ own

/-- The first cell found from which a target that is not adjacent can be attacked. -/
def stepBeforeAttack (m : Match) (start target : Hex) : Outcome (Option Hex) :=
  if start.adjacent target then .ok none
  else do return (← m.movementHexes start).find? (·.adjacent target)

end Match
end HexDuel
