import HexDuel.Command
import HexDuel.Setup

/-!
Matches that play themselves. Both sides follow one policy: answer a prompt, play what can be paid
for, attack what is in reach, walk towards the enemy core, then pass.
-/

set_option autoImplicit false

namespace HexDuel.SelfPlay

/-- More commands than these are not given in a turn without a pass. -/
def maxCommandsPerTurn : Nat := 40

def answer (m : Match) (player : Color) : Option Command :=
  let selection := (m.seat player).selection
  let choice := (selection.hexes.head?.map Choice.hex).or (selection.cards.head?.map Choice.card)
  choice.map (.chooseTarget player)

/-- Playing a card on the first cell that takes it. -/
def playOf (m : Match) (player : Color) (c : Card) : Outcome (List Command) := do
  if (m.seat player).energy.available < (← c.effectiveCost) then return []
  else
    match c.type with
    | .event => return [.playCard player c.id none]
    | type =>
      match (m.placementHexes player type).head? with
      | none => return []
      | some hex => return [.playCard player c.id (some hex)]

def leastBy {α : Type} (measure : α → Nat) : List α → Option α
  | [] => none
  | a :: as =>
    match leastBy measure as with
    | none => some a
    | some b => if measure b < measure a then some b else some a

/-- The cell closest to the enemy core, of those that are closer to it than the object is. -/
def approach (player : Color) (start : Hex) (moves : List Hex) : Option Hex :=
  let core := player.opponent.coreHex
  leastBy (·.distance core) (moves.filter fun h => h.distance core < start.distance core)

/-- An attack and a move of the object, as far as it has any. -/
def actsOf (m : Match) (player : Color) (p : Piece) : Outcome (List Command) := do
  if p.type = .core then return []
  else do
    let attacks ← m.attackHexes p.hex
    let moves ← m.movementHexes p.hex
    return (attacks.head?.map (.attackPiece player p.hex)).toList ++
      ((approach player p.hex moves).map (.movePiece player p.hex)).toList

def candidates (m : Match) : Outcome (List Command) :=
  match m.pending with
  | some prompt => .ok (answer m prompt.player).toList
  | none => do
    let plays ← (m.seat m.turn).hand.mapM (playOf m m.turn)
    let acts ← (m.board.piecesOf m.turn).mapM (actsOf m m.turn)
    return plays.flatten ++ acts.flatten

/-- The first of the commands that is not refused, and the match after it. -/
def tryEach (m : Match) : List Command → Outcome (Option (Match × Command))
  | [] => .ok none
  | c :: cs => do
    let next ← m.submit c
    if next.refusal.isNone then return some (next, c) else tryEach m cs

def step (m : Match) : Outcome (Option (Match × Command)) := do tryEach m (← candidates m)

/-- At most that many commands; with those that were accepted. -/
def steps : Nat → Match → Outcome (Match × List Command)
  | 0, m => .ok (m, [])
  | n + 1, m => do
    match ← step m with
    | none => return (m, [])
    | some (next, c) =>
      if next.isOver then return (next, [c])
      else do
        let (last, cs) ← steps n next
        return (last, c :: cs)

/-- A match as it was played: every command that was given, in order. -/
structure Record where
  game : Match
  commands : List Command

def Record.finished (r : Record) : Bool := r.game.isOver

/-- Rounds of commands and a pass, until somebody wins or more than `maxTurns` turns have begun. -/
def playRounds (maxTurns : Nat) : Nat → Record → Outcome Record
  | rounds, r =>
    if r.game.isOver || maxTurns < r.game.turnNumber then .ok r
    else
      match rounds with
      | 0 => .error .exhausted
      | rounds + 1 => do
        let (m, cs) ← steps maxCommandsPerTurn r.game
        if m.isOver then return ⟨m, r.commands ++ cs⟩
        else do
          let pass := Command.passTurn m.turn
          let next ← m.submit pass
          playRounds maxTurns rounds ⟨next, r.commands ++ cs ++ [pass]⟩

/-- More rounds are not played: a round passes the turn, unless a prompt is left over. -/
def maxRounds (maxTurns : Nat) : Nat := 100 * (maxTurns + 1)

def play (s : MatchSetup) (maxTurns : Nat) : Outcome Record := do
  playRounds maxTurns (maxRounds maxTurns) ⟨← s.start, []⟩

end HexDuel.SelfPlay
