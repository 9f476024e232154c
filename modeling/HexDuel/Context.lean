import HexDuel.Match

/-!
What a resolution is about: the object whose ability it is, who controls it, and what the event or
the last choice made prominent.
-/

set_option autoImplicit false

namespace HexDuel

structure Context where
  /-- The object whose ability is evaluated. -/
  current : Option PieceId
  /-- Who controls the ability, should its object leave the board. -/
  controller : Option Color
  source : Option AbilityId
  /-- The object or card of the event at hand, or of the last choice. -/
  it : Option Salient
  salientPlayer : Option Color
  /-- What the event was done to. -/
  that : Option Salient
  /-- What an action that goes through its targets works on now. -/
  iteratee : Option Salient
  inTrigger : Bool
  /-- A player can be asked; otherwise choices are made at random. -/
  interactive : Bool
  /-- How long abilities last that are installed now. -/
  duration : Option Nat

namespace Context

def empty : Context := ⟨none, none, none, none, none, none, none, false, false, none⟩

/-- Where a player's command starts. -/
def command (player : Color) : Context :=
  { empty with interactive := true, controller := some player }

def ownerOf (m : Match) (id : PieceId) : Option Color := (m.board.get? id).map (·.owner)

/-- What was salient stays so, and the object of that id speaks. -/
def onBehalfOf (ctx : Context) (m : Match) (id : PieceId) : Context :=
  { ctx with current := some id, controller := ownerOf m id }

/-- Evaluation for an object, with nobody to ask. -/
def forPiece (m : Match) (id : PieceId) : Context := empty.onBehalfOf m id

/-- Who controls the ability: the owner of its object while that is on the board. -/
def controllerIn (ctx : Context) (m : Match) : Color :=
  ((ctx.current.bind (ownerOf m)).or ctx.controller).getD m.turn

/-- In a trigger the event's object comes before the trigger's own, elsewhere behind it. -/
def itNow (ctx : Context) : Option Salient :=
  let current := ctx.current.map Salient.piece
  if ctx.inTrigger then ctx.it.or current else current.or ctx.it

def thatNow (ctx : Context) : Option Salient := ctx.that.or ctx.it

def theyNow (ctx : Context) : Option Salient := ctx.iteratee.or ctx.it

end Context
end HexDuel
