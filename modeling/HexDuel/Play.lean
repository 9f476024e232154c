import HexDuel.Context

/-!
Computations that change a match. Next to the match they keep a trace of what happened, which no
rule looks at.
-/

set_option autoImplicit false

namespace HexDuel

/-- What an observer may want to know of a resolution. -/
inductive Happening where
  | executed (action : Action)
  /-- A pick at random. -/
  | picked (collection : Collection)
  /-- A number handed out to an object, an ability or a card. -/
  | numbered (id : Nat)
  /-- A player is asked for one of the candidates. -/
  | suspended (player : Color) (candidates : Collection) (board : Board)
  /-- What a player named stands for that, where these were the candidates. -/
  | answered (player : Color) (choice : Choice) (candidates found : Collection) (board : Board)
  | toppled (id : PieceId)
  | combat (attacker defender : Piece)
  | turnEnded (player : Color)
  | turnBegan (player : Color)

structure Stage where
  game : Match
  /-- What happened, last first. -/
  trace : List Happening

abbrev Play := StateT Stage Outcome

namespace Play

def game : Play Match := do return (← get).game

def change (f : Match → Match) : Play Unit := modify fun st => { st with game := f st.game }

def note (h : Happening) : Play Unit := modify fun st => { st with trace := h :: st.trace }

def piece? (id : PieceId) : Play (Option Piece) := do return (← game).board.get? id

/-- A number not used for any object or ability of the match. -/
def freshId : Play Nat := do
  let n := (← game).lastId + 1
  if n < Width.end64 then do
    change fun m => { m with lastId := n }
    note (.numbered n)
    return n
  else throw .overflow

/-- What a computation on the match alone yields. -/
def result {α : Type} (p : Play α) (m : Match) : Outcome (α × Match) := do
  let (a, st) ← StateT.run p ⟨m, []⟩
  return (a, st.game)

end Play

/-- Resolutions also change what is salient. -/
abbrev Resolving := StateT Context Play

end HexDuel
