import HexDuel.Side

/-!
What ends a match's evaluation: broken content, a broken setup, a number that leaves its width. An
illegal move of a player is none of these.
-/

set_option autoImplicit false

namespace HexDuel

inductive CollectionKind where
  | cards
  | pieces
  | players
  | hexes
  deriving DecidableEq, Repr

namespace CollectionKind

def all : List CollectionKind := [.cards, .pieces, .players, .hexes]

def name : CollectionKind → String
  | .cards => "cards"
  | .pieces => "objects"
  | .players => "players"
  | .hexes => "hexes"

end CollectionKind

inductive Demand where
  | cards
  | pieces
  | players
  | hexes
  | piecesOrCards
  | piecesOrHexes
  deriving DecidableEq, Repr

def Demand.name : Demand → String
  | .cards => "cards"
  | .pieces => "objects"
  | .players => "players"
  | .hexes => "hexes"
  | .piecesOrCards => "objects or cards"
  | .piecesOrHexes => "objects or hexes"

inductive Fault where
  | mismatch (expected : Demand) (got : CollectionKind)
  | choiceOfPlayers
  | hexTaken (hex : Hex)
  | hexMissing (card : String)
  | coreInHand
  | lastingEvent (card : String)
  | coreInDeck (owner : Color) (card : String)
  | statsMissing (card : String)
  | limitsNotPositive
  /-- A number leaves its width. -/
  | overflow
  /-- Effects cause one another more deeply than is followed. -/
  | exhausted
  deriving DecidableEq, Repr

namespace Fault

inductive Category where
  | malformed
  | setup
  | machine
  deriving DecidableEq, Repr

def category : Fault → Category
  | .coreInDeck .. | .statsMissing _ | .limitsNotPositive => .setup
  | .overflow | .exhausted => .machine
  | _ => .malformed

def detail : Fault → String
  | .mismatch expected got => s!"expected {expected.name}, got a collection of {got.name}"
  | .choiceOfPlayers => "cannot choose among players"
  | .hexTaken hex => s!"hex {hex.toText} is occupied"
  | .hexMissing card => s!"playing |{card}| needs a hex"
  | .coreInHand => "cores cannot be played"
  | .lastingEvent card => s!"|{card}| is an event with a lasting ability"
  | .coreInDeck owner card => s!"{owner.name}'s deck contains a core card ({card})"
  | .statsMissing card => s!"{card} has no stats"
  | .limitsNotPositive => "hand size and energy limits must be positive"
  | .overflow => "a number is too large"
  | .exhausted => "effects are nested too deeply"

def message (f : Fault) : String :=
  match f.category with
  | .malformed => "Malformed command: " ++ f.detail
  | .setup => "Invalid match setup: " ++ f.detail
  | .machine => f.detail

end Fault

abbrev Outcome := Except Fault

/-- A game number: 32 bits with a sign. -/
def Outcome.int32 (i : Int) : Outcome Int :=
  if Hex.inWord i then .ok i else .error .overflow

/-- The low 32 bits of a length, as a game number. -/
def Outcome.wrap32 (length : Nat) : Int :=
  let low : Int := (length % Width.end32 : Nat)
  if low ≤ Width.most32 then low else low - Width.end32

theorem Outcome.wrap32_of_le {length : Nat} (h : (length : Int) ≤ Width.most32) :
    wrap32 length = length := by
  simp only [wrap32, Width.most32, Width.end32] at *
  omega

theorem Outcome.int32_eq_ok_iff {i j : Int} :
    int32 i = .ok j ↔ i = j ∧ Width.least32 ≤ i ∧ i ≤ Width.most32 := by
  by_cases h : Hex.inWord i = true
  · simp [int32, h]
    intro _
    simpa [Hex.inWord] using h
  · simp only [int32, h]
    simp [Hex.inWord] at h
    simp
    intro _ h'
    exact h h'

end HexDuel
