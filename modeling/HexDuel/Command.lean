import HexDuel.Effect
import HexDuel.Reach

/-!
What players can ask for, and what becomes of it. A command is carried out on a copy of the match.
When it needs a target that the player has not named, the copy is thrown away and the match records
a prompt; once the player answers, the command is run again from its start with all answers so far.
A half-resolved card therefore never shows in the match.
-/

set_option autoImplicit false

namespace HexDuel

inductive Command where
  | playCard (player : Color) (card : CardId) (hex : Option Hex)
  | movePiece (player : Color) (start goal : Hex)
  | attackPiece (player : Color) (start target : Hex)
  | activateAbility (player : Color) (hex : Hex) (index : Nat)
  | chooseTarget (player : Color) (target : Choice)
  | passTurn (player : Color)
  deriving DecidableEq, Repr

namespace Command

def player : Command → Color
  | .playCard p .. | .movePiece p .. | .attackPiece p .. | .activateAbility p .. |
    .chooseTarget p _ | .passTurn p => p

/-- What a command starts; an answer and the end of a turn start nothing. -/
def resumption? : Command → Option Resumption
  | .playCard _ card hex => some (.playCard card hex)
  | .movePiece _ start goal => some (.movePiece start goal)
  | .attackPiece _ start target => some (.attackPiece start target)
  | .activateAbility _ hex index => some (.activateAbility hex index)
  | .chooseTarget .. | .passTurn _ => none

def typed (type : String) (player : Color) (fields : List (String × Json)) : Json :=
  .obj (("type", .str type) :: ("player", player.encode) :: fields)

def encode : Command → Json
  | .playCard p card hex =>
    typed "playCard" p [("card_id", .str card), ("hex", .ofOption Hex.encode hex)]
  | .movePiece p start goal => typed "moveObject" p [("from", start.encode), ("to", goal.encode)]
  | .attackPiece p start target =>
    typed "attackObject" p [("from", start.encode), ("target", target.encode)]
  | .activateAbility p hex index =>
    typed "activateAbility" p [("hex", hex.encode), ("ability_index", .ofNat index)]
  | .chooseTarget p target => typed "chooseTarget" p [("target", target.encode)]
  | .passTurn p => typed "passTurn" p []

/-- The type of a command and what else it holds: the type is a member of an object, wherever it
stands, or the first item of an array. -/
def split : Json → Option (String × Json)
  | .obj members =>
    match members.partition (·.1 == "type") with
    | ([(_, .str type)], rest) => some (type, .obj rest)
    | _ => none
  | .arr (.str type :: rest) => some (type, .arr rest)
  | .row (.str type :: rest) => some (type, .arr rest)
  | _ => none

/-- The player of a command. A color has no data, and an empty object may stand in its place. -/
def playerOf : Json → Option Color
  | .obj [(name, .obj [])] => Color.decode (.str name)
  | v => Color.decode v

def decode (v : Json) : Option Command := do
  if !v.isClean then none
  let (type, fields) ← split v
  match type with
  | "playCard" => do
    let [player, card, hex] ← fields.record? ["player", "card_id", "hex"] | none
    return .playCard (← player.required playerOf) (← card.required Json.text?)
      (← hex.orElse (Json.option? Hex.decode) none)
  | "moveObject" => do
    let [player, start, goal] ← fields.record? ["player", "from", "to"] | none
    return .movePiece (← player.required playerOf) (← start.required Hex.decode)
      (← goal.required Hex.decode)
  | "attackObject" => do
    let [player, start, target] ← fields.record? ["player", "from", "target"] | none
    return .attackPiece (← player.required playerOf) (← start.required Hex.decode)
      (← target.required Hex.decode)
  | "activateAbility" => do
    let [player, hex, index] ← fields.record? ["player", "hex", "ability_index"] | none
    return .activateAbility (← player.required playerOf) (← hex.required Hex.decode)
      (← index.required Json.nat64?)
  | "chooseTarget" => do
    let [player, target] ← fields.record? ["player", "target"] | none
    return .chooseTarget (← player.required playerOf) (← target.required Choice.decode)
  | "passTurn" => do
    let [player] ← fields.record? ["player"] | none
    return .passTurn (← player.required playerOf)
  | _ => none

end Command

/-- Computations that may find out that the command has to be refused. -/
abbrev Attempt := ExceptT Rejection Play

namespace Attempt

def refuse {α : Type} (r : Rejection) : Attempt α := throwThe Rejection r

def game : Attempt Match := liftM Play.game

def change (f : Match → Match) : Attempt Unit := liftM (Play.change f)

def ownPieceAt (player : Color) (hex : Hex) : Attempt Piece := do
  match (← game).board.pieceAt? hex with
  | some p => if p.owner = player then return p else refuse (.noPiece hex)
  | none => refuse (.noPiece hex)

def pay (player : Color) (cost : Int) : Attempt Unit := do
  let available ← (Outcome.int32 (((← game).seat player).energy.available - cost) : Play Int)
  change (·.changeSeat player (·.setAvailable available))

/-! ### Cards -/

/-- The sentences of an event, with what each makes salient for the next. -/
def resolveEvent (run : Runner) (card : Card) : List Sentence → Resolving Unit
  | [] => return ()
  | .actions actions :: rest => do
    Resolving.executeAll run actions
    resolveEvent run card rest
  | _ :: _ => throw (.lastingEvent card.name)

def playEvent (run : Runner) (player : Color) (card : Card) (cost : Int) : Attempt Unit := do
  change fun m => { m with eventResolving := true }
  pay player cost
  change (·.playSound "event.wav")
  change (·.addLog (some player) s!"played {card.mention}" [card])
  let (_, ctx) ← ((resolveEvent run card card.sentences).run (.command player) : Play _)
  match ((← game).seat player).cardInHand? card.id with
  | some played => do
    change (·.dropFromHand player card.id)
    change (·.discard player played.reset)
  | none => pure ()
  change fun m => { m with eventResolving := false }
  Play.occur run ((Occurrence.ofPlayer .afterCardPlay player).withCard card) ctx (pure ())

def playPiece (run : Runner) (player : Color) (card : Card) (cost : Int) (hex : Hex) :
    Attempt Unit := do
  if !((← game).placementHexes player card.type).contains hex then refuse (.illegalPlacement hex)
  else do
    pay player cost
    match ((← game).seat player).cardInHand? card.id with
    | none => refuse .cardNotInHand
    | some card => do
      change (·.dropFromHand player card.id)
      let ctx := Context.command player
      match ← (Play.placeCard run card hex player true ctx : Play _) with
      | none => refuse (.illegalPlacement hex)
      | some id => do
        change (·.addLog (some player) s!"played {card.mention}" [card])
        Play.occur run ((Occurrence.ofPlayer .afterCardPlay player).withCard card) ctx (pure ())
        change (·.changePiece id (·.arrive))

def playCard (run : Runner) (player : Color) (id : CardId) (hex : Option Hex) : Attempt Unit := do
  let seat := (← game).seat player
  match seat.cardInHand? id with
  | none => refuse .cardNotInHand
  | some card => do
    let cost ← (card.effectiveCost : Play Int)
    if seat.energy.available < cost then refuse (.notEnoughEnergy cost seat.energy.available)
    else
      match card.type, hex with
      | .event, _ => playEvent run player card cost
      | .core, _ => throwThe Fault .coreInHand
      | _, some hex => playPiece run player card cost hex
      | _, none => throwThe Fault (.hexMissing card.name)

/-! ### Objects -/

def walk (id : PieceId) (start goal : Hex) : Play Bool := do
  let m ← Play.game
  let hexes ← m.movementHexes start
  if hexes.contains goal then
    match m.board.get? id with
    | none => return true
    | some p => do
      let made ← Outcome.int32 (p.movesMade + start.distance goal)
      Play.change (·.changePiece id (·.walk made goal))
      return true
  else return false

def movePiece (run : Runner) (player : Color) (start goal : Hex) : Attempt Unit := do
  let p ← ownPieceAt player start
  if ← (walk p.id start goal : Play Bool) then do
    change (·.animate (.move start goal))
    change (·.playSound "move.wav")
    Play.occur run (.ofPiece .afterMove p.id) (.command player) (pure ())
  else refuse (.illegalMove goal)

/-- Both sides strike at once: the defender fights back with the attack it had before, even if it is
destroyed. -/
def combat (run : Runner) (attacker defender : PieceId) (ctx : Context) : Play Unit := do
  match ← Play.piece? attacker with
  | none => return ()
  | some a => do
    let attack ← a.attack
    let d ← Play.piece? defender
    let retaliation ←
      match d with
      | none => pure 0
      | some d => if d.hasStatus .cannotFightBack then pure 0 else d.attack
    match d with
    | none => pure ()
    | some d => Play.note (.combat a d)
    Play.dealDamage run defender attack (some .combat) ctx
    if 0 < retaliation && (← Play.game).board.contains attacker then
      Play.dealDamage run attacker retaliation (some .combat) ctx

/-- The blow, once the attacker stands where it strikes from. -/
def strike (run : Runner) (player : Color) (attacker defender : PieceId) (stand target : Hex) :
    Attempt Unit := do
  match (← game).board.get? attacker with
  | none => return ()
  | some a => do
    change (·.changePiece attacker (·.struck))
    match (← game).board.get? defender with
    | none => return ()
    | some d => do
      change (·.animate (.attack stand target))
      change (·.playSound "attack.wav")
      change (·.addLog none s!"{a.card.mention} attacked {d.card.mention}" [a.card, d.card])
      let ctx := Context.command player
      Play.occur run ((Occurrence.ofPiece .afterAttack attacker).withUndergoer defender d.type) ctx
        (combat run attacker defender ctx)

def attackPiece (run : Runner) (player : Color) (start target : Hex) : Attempt Unit := do
  let a ← ownPieceAt player start
  let m ← game
  let hexes ← (m.attackHexes start : Play _)
  if !hexes.contains target then refuse (.illegalAttack target)
  else
    match m.board.idAt? target with
    | none => refuse (.illegalAttack target)
    | some defender => do
      match ← (m.stepBeforeAttack start target : Play _) with
      | none => strike run player a.id defender start target
      | some step => do
        movePiece run player start step
        strike run player a.id defender step target

def activateAbility (run : Runner) (player : Color) (hex : Hex) (index : Nat) : Attempt Unit := do
  let own ← ownPieceAt player hex
  match (← game).board.get? own.id with
  | none => refuse (.noPiece hex)
  | some p =>
    if !p.canActivate then refuse .cannotActivate
    else
      match p.activations[index]? with
      | none => refuse .cannotActivate
      | some activation => do
        change (·.addLog (some player) s!"activated {p.card.mention}'s ability" [p.card])
        let ctx :=
          { Context.command player with current := some own.id, source := some activation.ability }
        ((Resolving.executeAll run activation.actions).run' ctx : Play Unit)
        change (·.changePiece own.id (·.spent))

def perform (run : Runner) (player : Color) : Resumption → Attempt Unit
  | .playCard card hex => playCard run player card hex
  | .movePiece start goal => movePiece run player start goal
  | .attackPiece start target => attackPiece run player start target
  | .activateAbility hex index => activateAbility run player hex index

end Attempt

namespace Match

/-- How deeply effects may cause one another. -/
def maxDepth : Nat := 100000000

/-- Nothing is asked of the player any more. -/
def release (m : Match) (player : Color) : Match :=
  { (m.setSelection player .none).setStatus player "" with pending := none }

/-- Drops the suspended command, if there is one, so that nobody is left with a prompt that cannot
be answered. -/
def abandon (m : Match) (player : Color) (r : Rejection) : Match :=
  match m.pending with
  | none => m.reject player r
  | some _ => (m.release player).reject player r

/-- Records the prompt on a match that is otherwise as it was. -/
def suspend (m : Match) (player : Color) (resumption : Resumption) (offered : Selection)
    (chosen : List Choice) : Match :=
  { (m.setSelection player { offered with chosen := chosen }).setStatus player "Choose a target" with
    pending := some ⟨player, resumption⟩ }

/-- The copy that a command is carried out on, with the answers given so far. -/
def scratch (m : Match) (player : Color) (chosen : List Choice) : Stage :=
  ⟨m.setSelection player (.answering chosen), []⟩

/-- Carries a command out with the answers given so far; with what happened, last first. -/
def attempt (depth : Nat) (m : Match) (player : Color) (resumption : Resumption)
    (chosen : List Choice) : Outcome (Match × List Happening) := do
  let run := Play.runner depth
  let (result, st) ←
    (Attempt.perform run player resumption).run.run (m.scratch player chosen)
  match result, st.game.refusal with
  | .error r, _ => return (m.abandon player r, st.trace)
  | .ok (), some r => return (m.abandon player r, st.trace)
  | .ok (), none =>
    let selection := (st.game.seat player).selection
    if selection.choosing then
      return (m.suspend player resumption selection chosen, st.trace)
    else do
      let (_, st) ← (Play.settle run).run st
      return (st.game.release player, st.trace)

def endOfTurn (depth : Nat) (m : Match) : Outcome (Match × List Happening) := do
  let run := Play.runner depth
  let (_, st) ← (do Play.passTurn run; Play.settle run : Play Unit).run ⟨m, []⟩
  return (st.game, st.trace)

/-- The match without the reason for which the last command was refused. -/
def heard (m : Match) : Match := { m with refusal := none }

/-- What becomes of a command whose effects are followed to the given depth; with what happened,
last first. -/
def submitTraced (depth : Nat) (m : Match) (c : Command) : Outcome (Match × List Happening) :=
  let m := m.heard
  let player := c.player
  if m.isOver then .ok (m.reject player .gameOver, [])
  else
    match c with
    | .chooseTarget _ target =>
      match m.pending with
      | none => .ok (m.reject player .nothingToChoose, [])
      | some prompt =>
        let selection := (m.seat player).selection
        if prompt.player ≠ player then .ok (m.reject player .notYourTurn, [])
        else if !selection.allows target then .ok (m.reject player .illegalTarget, [])
        else m.attempt depth player prompt.resumption (selection.chosen ++ [target])
    | c =>
      if m.pending.isSome then .ok (m.reject player .selectionPending, [])
      else if player ≠ m.turn then .ok (m.reject player .notYourTurn, [])
      else
        match c.resumption? with
        | some resumption => m.attempt depth player resumption []
        | none => m.endOfTurn depth

/-- The match after a player's command. A command that is refused leaves its reason. -/
def submit (m : Match) (c : Command) : Outcome Match := (m.submitTraced maxDepth c).map (·.1)

end Match
end HexDuel
