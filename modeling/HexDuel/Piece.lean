import HexDuel.Ability

/-!
Objects on the board: robots, structures and cores, with what abilities hold on them and what they
did this turn and the last one.
-/

set_option autoImplicit false

namespace HexDuel

structure Piece where
  id : PieceId
  card : Card
  owner : Color
  hex : Hex
  stats : Stats
  passives : List Passive
  triggers : List Trigger
  activations : List Activation
  statuses : List Status
  adjustments : List StatAdjustment
  movesMade : Int
  cantMove : Bool
  cantAttack : Bool
  cantActivate : Bool
  attackedThisTurn : Bool
  movedThisTurn : Bool
  attackedLastTurn : Bool
  movedLastTurn : Bool
  justPlayed : Bool
  /-- Its destruction is asked for. -/
  condemned : Bool
  /-- Its destruction is under way. -/
  falling : Bool

namespace Piece

/-- A new object waits for its next turn before it moves, attacks or activates. -/
def new (id : PieceId) (card : Card) (owner : Color) (hex : Hex) : Piece where
  id := id
  card := card
  owner := owner
  hex := hex
  stats := card.stats.getD (.still 0)
  passives := []
  triggers := []
  activations := []
  statuses := []
  adjustments := []
  movesMade := 0
  cantMove := true
  cantAttack := true
  cantActivate := true
  attackedThisTurn := false
  movedThisTurn := false
  attackedLastTurn := false
  movedLastTurn := false
  justPlayed := false
  condemned := false
  falling := false

def type (p : Piece) : CardType := p.card.type

/-! ### Numbers -/

def adjustmentsOf (p : Piece) (a : Attribute) : List Adjustment :=
  (p.adjustments.filter (·.stat == some a)).map (·.adjustment)

/-- An attribute with every adjustment that is held on it, in order. -/
def value? (p : Piece) (a : Attribute) : Outcome (Option Int) :=
  match p.stats.get a with
  | none => .ok none
  | some base => (Adjustment.applyAll (p.adjustmentsOf a) base).map some

/-- What is absent counts as zero. -/
def value (p : Piece) (a : Attribute) : Outcome Int := (p.value? a).map (·.getD 0)

theorem value_of_no_adjustments {p : Piece} {a : Attribute} (h : p.adjustmentsOf a = []) :
    p.value a = .ok ((p.stats.get a).getD 0) := by
  unfold value value?
  cases p.stats.get a with
  | none => rfl
  | some base => rw [h]; rfl

def attack (p : Piece) : Outcome Int := p.value .attack

def health (p : Piece) : Outcome Int := p.value .health

def speed (p : Piece) : Outcome Int := p.value .speed

def isDamaged (p : Piece) : Outcome Bool := do return (← p.health) < p.card.baseHealth

def isDoomed (p : Piece) : Outcome Bool := do return (← p.health) ≤ 0 || p.condemned

/-! ### Statuses -/

def hasStatus (p : Piece) (kind : StatusKind) : Bool := p.statuses.any (·.kind.same kind)

/-- Whom it may attack, when any status restricts that: the defenders of all such statuses. -/
def attackRestriction (p : Piece) : Option (List PieceId) :=
  let lists := p.statuses.filterMap fun s =>
    match s.kind with
    | .canOnlyAttack ids => some ids
    | _ => none
  if lists.isEmpty then none else some lists.flatten

def canMoveOverPieces (p : Piece) : Bool := p.hasStatus .canMoveOverPieces

def movesLeft (p : Piece) : Outcome Int :=
  if p.cantMove || p.hasStatus .cannotMove then .ok 0
  else do
    let left ← Outcome.int32 ((← p.speed) - p.movesMade)
    return max left 0

def canActivate (p : Piece) : Bool := !p.cantActivate && !p.hasStatus .cannotActivate

/-! ### The turn -/

/-- What the start of its owner's turn gives back. -/
def resetForTurn (p : Piece) : Piece :=
  { p with movesMade := 0, cantActivate := false, cantAttack := false, cantMove := false }

/-- This turn's marks become those of the last turn. -/
def endTurn (p : Piece) : Piece :=
  { p with
    attackedLastTurn := p.attackedThisTurn
    movedLastTurn := p.movedThisTurn
    attackedThisTurn := false
    movedThisTurn := false }

def beginTurnOf (player : Color) (p : Piece) : Piece :=
  if p.owner == player then p.resetForTurn else p

def endTurnOf (player : Color) (p : Piece) : Piece := if p.owner == player then p.endTurn else p

def mayMoveAgain (p : Piece) : Piece := { p with movesMade := 0, cantMove := false }

def mayMoveAndAttackAgain (p : Piece) : Piece :=
  { p with movesMade := 0, cantMove := false, cantAttack := false }

/-- Who has attacked neither moves nor attacks again. -/
def struck (p : Piece) : Piece :=
  { p with cantMove := true, cantAttack := true, attackedThisTurn := true }

/-- Who has activated an ability does nothing more. -/
def spent (p : Piece) : Piece := { p with cantActivate := true, cantMove := true, cantAttack := true }

/-- Who changes sides waits for the next turn. -/
def joining (owner : Color) (p : Piece) : Piece :=
  { p with owner := owner, cantMove := true, cantAttack := true, cantActivate := true }

/-! ### What happens to it -/

def setHealth (health : Int) (p : Piece) : Piece :=
  { p with stats := { p.stats with health := health } }

def setStats (stats : Stats) (p : Piece) : Piece := { p with stats := stats }

/-- Exchanges two numbers of an object that has both. -/
def swap (first second : Attribute) (p : Piece) : Piece :=
  match p.stats.get first, p.stats.get second with
  | some a, some b => { p with stats := (p.stats.set first b).set second a }
  | _, _ => p

def walk (made : Int) (goal : Hex) (p : Piece) : Piece :=
  { p with movesMade := made, hex := goal, movedThisTurn := true }

def moveTo (goal : Hex) (p : Piece) : Piece := { p with hex := goal }

def condemn (p : Piece) : Piece := { p with condemned := true }

def fall (p : Piece) : Piece := { p with falling := true }

def arrive (p : Piece) : Piece := { p with justPlayed := false }

def addPassive (a : Passive) (p : Piece) : Piece := { p with passives := p.passives ++ [a] }

def addTrigger (t : Trigger) (p : Piece) : Piece := { p with triggers := p.triggers ++ [t] }

def dropAdjustments (p : Piece) (ability : AbilityId) : Piece :=
  { p with adjustments := p.adjustments.filter (·.ability != ability) }

/-! ### Flags and properties -/

def has (p : Piece) : Property → Outcome Bool
  | .attackedLastTurn => .ok p.attackedLastTurn
  | .attackedThisTurn => .ok p.attackedThisTurn
  | .movedLastTurn => .ok p.movedLastTurn
  | .movedThisTurn => .ok p.movedThisTurn
  | .isDestroyed => .ok p.condemned
  | .isDamaged => p.isDamaged

/-! ### Text -/

def encode (p : Piece) : Json :=
  .obj [("id", .ofNat p.id), ("card", p.card.encode), ("owner", p.owner.encode),
    ("hex", p.hex.encode), ("stats", p.stats.encode),
    ("abilities", .ofList Passive.encode p.passives),
    ("triggers", .ofList Trigger.encode p.triggers),
    ("activated_abilities", .ofList Activation.encode p.activations),
    ("effects", .ofList Status.encode p.statuses),
    ("temporary_adjustments", .ofList StatAdjustment.encode p.adjustments),
    ("moves_made", .int p.movesMade), ("cant_move", .bool p.cantMove),
    ("cant_attack", .bool p.cantAttack), ("cant_activate", .bool p.cantActivate),
    ("attacked_this_turn", .bool p.attackedThisTurn), ("moved_this_turn", .bool p.movedThisTurn),
    ("attacked_last_turn", .bool p.attackedLastTurn), ("moved_last_turn", .bool p.movedLastTurn),
    ("just_played", .bool p.justPlayed), ("is_destroyed", .bool p.condemned),
    ("being_destroyed", .bool p.falling)]

def decode (v : Json) : Option Piece := do
  let [id, card, owner, hex, stats, passives, triggers, activations, statuses, adjustments,
      movesMade, cantMove, cantAttack, cantActivate, attackedThisTurn, movedThisTurn,
      attackedLastTurn, movedLastTurn, justPlayed, condemned, falling] ←
    v.record? ["id", "card", "owner", "hex", "stats", "abilities", "triggers",
      "activated_abilities", "effects", "temporary_adjustments", "moves_made", "cant_move",
      "cant_attack", "cant_activate", "attacked_this_turn", "moved_this_turn",
      "attacked_last_turn", "moved_last_turn", "just_played", "is_destroyed", "being_destroyed"]
    | none
  return {
    id := ← id.required Json.nat64?
    card := ← card.required Card.decode
    owner := ← owner.required Color.decode
    hex := ← hex.required Hex.decode
    stats := ← stats.required Stats.decode
    passives := ← passives.required (Json.list? Passive.decode)
    triggers := ← triggers.required (Json.list? Trigger.decode)
    activations := ← activations.required (Json.list? Activation.decode)
    statuses := ← statuses.required (Json.list? Status.decode)
    adjustments := ← adjustments.required (Json.list? StatAdjustment.decode)
    movesMade := ← movesMade.required Json.int32?
    cantMove := ← cantMove.required Json.bool?
    cantAttack := ← cantAttack.required Json.bool?
    cantActivate := ← cantActivate.required Json.bool?
    attackedThisTurn := ← attackedThisTurn.required Json.bool?
    movedThisTurn := ← movedThisTurn.required Json.bool?
    attackedLastTurn := ← attackedLastTurn.required Json.bool?
    movedLastTurn := ← movedLastTurn.required Json.bool?
    justPlayed := ← justPlayed.required Json.bool?
    condemned := ← condemned.required Json.bool?
    falling := ← falling.required Json.bool? }

end Piece
end HexDuel
