import HexDuel.Fault

/-!
Why a command is refused. A refusal is an ordinary answer to a player.
-/

set_option autoImplicit false

namespace HexDuel

inductive Rejection where
  | notYourTurn
  | gameOver
  | selectionPending
  | nothingToChoose
  | illegalTarget
  | noValidTargets
  | cardNotInHand
  | notEnoughEnergy (needed available : Int)
  | illegalPlacement (hex : Hex)
  | noPiece (hex : Hex)
  | illegalMove (hex : Hex)
  | illegalAttack (hex : Hex)
  | cannotActivate
  deriving DecidableEq, Repr

namespace Rejection

def message : Rejection → String
  | .notYourTurn => "It is not your turn"
  | .gameOver => "The game is over"
  | .selectionPending => "You must choose a target first"
  | .nothingToChoose => "There is nothing to choose"
  | .illegalTarget => "That is not a valid target"
  | .noValidTargets => "There are no valid targets"
  | .cardNotInHand => "That card is not in your hand"
  | .notEnoughEnergy needed available => s!"Not enough energy: need {needed}, have {available}"
  | .illegalPlacement hex => s!"Cannot place a card at {hex.toText}"
  | .noPiece hex => s!"There is no object of yours at {hex.toText}"
  | .illegalMove hex => s!"Cannot move to {hex.toText}"
  | .illegalAttack hex => s!"Cannot attack {hex.toText}"
  | .cannotActivate => "That ability cannot be activated"

def encode : Rejection → Json
  | .notYourTurn => .str "notYourTurn"
  | .gameOver => .str "gameOver"
  | .selectionPending => .str "selectionPending"
  | .nothingToChoose => .str "nothingToChoose"
  | .illegalTarget => .str "illegalTarget"
  | .noValidTargets => .str "noValidTargets"
  | .cardNotInHand => .str "cardNotInHand"
  | .notEnoughEnergy needed available =>
    .tagged "notEnoughEnergy" (.obj [("needed", .int needed), ("available", .int available)])
  | .illegalPlacement hex => .tagged "illegalPlacement" hex.encode
  | .noPiece hex => .tagged "noObject" hex.encode
  | .illegalMove hex => .tagged "illegalMove" hex.encode
  | .illegalAttack hex => .tagged "illegalAttack" hex.encode
  | .cannotActivate => .str "cannotActivate"

def decode (v : Json) : Option Rejection := do
  let (name, data) ← v.variant?
  let plain (r : Rejection) : Option Rejection := if Json.noData data then some r else none
  match name with
  | "notYourTurn" => plain .notYourTurn
  | "gameOver" => plain .gameOver
  | "selectionPending" => plain .selectionPending
  | "nothingToChoose" => plain .nothingToChoose
  | "illegalTarget" => plain .illegalTarget
  | "noValidTargets" => plain .noValidTargets
  | "cardNotInHand" => plain .cardNotInHand
  | "notEnoughEnergy" => do
    let [needed, available] ← (← data).fields? ["needed", "available"] | none
    return .notEnoughEnergy (← needed.required Json.int32?) (← available.required Json.int32?)
  | "illegalPlacement" => return .illegalPlacement (← Hex.decode (← data))
  | "noObject" => return .noPiece (← Hex.decode (← data))
  | "illegalMove" => return .illegalMove (← Hex.decode (← data))
  | "illegalAttack" => return .illegalAttack (← Hex.decode (← data))
  | "cannotActivate" => plain .cannotActivate
  | _ => none

end Rejection
end HexDuel
