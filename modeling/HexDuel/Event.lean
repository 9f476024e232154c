import HexDuel.Upkeep

/-!
Events and the triggers that answer them. What a trigger does may raise further events; the actions
are therefore handed to a runner, which follows them to a bounded depth.
-/

set_option autoImplicit false

namespace HexDuel

/-- Carries actions out to their end. -/
abbrev Runner := Context → List Action → Play Unit

/-- Something that happened to an object or a player. -/
structure Occurrence where
  event : EventType
  piece : Option PieceId
  player : Option Color
  /-- The card involved in what happened to a player. -/
  card : Option Card
  undergoer : Option PieceId
  cause : Option Cause
  /-- The type of the defender or of the card played. -/
  type : Option CardType

namespace Occurrence

def ofPiece (event : EventType) (id : PieceId) : Occurrence :=
  ⟨event, some id, none, none, none, none, none⟩

def ofPlayer (event : EventType) (player : Color) : Occurrence :=
  ⟨event, none, some player, none, none, none, none⟩

def withCard (o : Occurrence) (c : Card) : Occurrence := { o with card := some c, type := some c.type }

def withUndergoer (o : Occurrence) (id : PieceId) (type : CardType) : Occurrence :=
  { o with undergoer := some id, type := some type }

def withCause (o : Occurrence) (cause : Option Cause) : Occurrence := { o with cause := cause }

def salient (o : Occurrence) : Option Salient := (o.piece.map .piece).or (o.card.map .card)

/-- Whether a trigger asks for such an event, before its targets are looked at. -/
def fits (o : Occurrence) (spec : TriggerSpec) : Bool :=
  let causeFits := spec.cause == .anyEvent || some spec.cause == o.cause
  let typeFits :=
    match spec.types with
    | some query => (o.type.map query.admits).getD false
    | none => true
  causeFits && typeFits

/-- Whether what it happened to is among the listened to. -/
def isHeardBy (o : Occurrence) (listeners : Collection) : Bool :=
  match o.piece, o.player with
  | some id, _ => listeners.hasPiece id
  | none, some c => listeners.hasPlayer c
  | none, none => false

def context (o : Occurrence) (owner : PieceId) (controller : Color) (t : Trigger)
    (interactive : Bool) : Context where
  current := some owner
  controller := some controller
  source := some t.id
  it := o.salient
  salientPlayer := o.player
  that := o.undergoer.map .piece
  iteratee := none
  inTrigger := true
  interactive := interactive
  duration := none

end Occurrence

/-- A trigger that answers an event, with its object and who owned that at the time. -/
structure Answer where
  owner : PieceId
  controller : Color
  trigger : Trigger

namespace Play

def hears (o : Occurrence) (owner : PieceId) (t : Trigger) : Play Bool := do
  if o.fits t.spec then do
    let m ← game
    let listeners ← (Resolving.resolve t.spec.targets).run' (.forPiece m owner)
    return o.isHeardBy listeners
  else return false

def answersAmong (o : Occurrence) (owner : PieceId) (controller : Color) :
    List Trigger → Play (List Answer)
  | [] => return []
  | t :: ts => do
    let heard ← hears o owner t
    let rest ← answersAmong o owner controller ts
    return if heard then ⟨owner, controller, t⟩ :: rest else rest

/-- The triggers of these objects that answer the event. -/
def answersOf (o : Occurrence) : List PieceId → Play (List Answer)
  | [] => return []
  | id :: ids => do
    let found ←
      match ← piece? id with
      | none => pure []
      | some p =>
        answersAmong o id p.owner (p.triggers.filter fun t => !t.disabled && t.spec.event == o.event)
    return found ++ (← answersOf o ids)

/-- What the event does by itself, unless a trigger takes its place, and then what the triggers do,
in the order of the objects. Who answers is settled before anything is done. -/
def occur (run : Runner) (o : Occurrence) (parent : Context) (byDefault : Play Unit) :
    Play Unit := do
  let answers ← answersOf o (← game).board.ids
  if !answers.any (·.trigger.overrides) then byDefault
  answers.forM fun a => run (o.context a.owner a.controller a.trigger parent.interactive)
    a.trigger.actions

/-! ### The turn -/

/-- Nothing is asked of a player any more whose turn is over. -/
def leave (player : Color) : Play Unit := do
  change (·.setSelection player .none)
  change (·.setStatus player "")
  note (.turnEnded player)

def endTurn (run : Runner) : Play Unit := do
  let player := (← game).turn
  leave player
  change (·.changeBoard (·.mapPieces (·.endTurnOf player)))
  change (·.tickDurations)
  occur run (.ofPlayer .endOfTurn player) .empty (pure ())
  change (·.checkVictory)
  change fun m => { m with turn := player.opponent }

def startTurn (run : Runner) : Play Unit := do
  let m ← game
  let player := m.turn
  if m.turnNumber + 1 < Width.end32 then change fun m => { m with turnNumber := m.turnNumber + 1 }
  else throw .overflow
  let total := min (← Outcome.int32 ((m.seat player).energy.total + 1)) m.limits.maxEnergy
  change (·.changeSeat player (·.setEnergy ⟨total, total⟩))
  change (·.changeBoard (·.mapPieces (·.beginTurnOf player)))
  note (.turnBegan player)
  drawCards player 1
  occur run (.ofPlayer .beginningOfTurn player) .empty (pure ())
  change (·.chime player)

/-- The turn passes to the other player, unless the match is decided. -/
def passTurn (run : Runner) : Play Unit := do
  endTurn run
  if !(← game).isOver then startTurn run

end Play
end HexDuel
