import HexDuel.Board
import HexDuel.Json.Printer
import HexDuel.Random
import HexDuel.Rejection
import HexDuel.Seat

/-!
The state of a match, and the small changes that everything else is made of.
-/

set_option autoImplicit false

namespace HexDuel

inductive Format where
  /-- Each player draws from a deck of their own. -/
  | normal
  /-- The decks are merged, and what leaves the top leaves it for both players. -/
  | sharedDeck
  deriving DecidableEq, Repr

namespace Format

def all : List Format := [.normal, .sharedDeck]

def name : Format → String
  | .normal => "normal"
  | .sharedDeck => "sharedDeck"

def encode (f : Format) : Json := .str f.name

def decode : Json → Option Format := Json.named? name all

@[simp] theorem decode_encode (f : Format) : decode f.encode = some f := by cases f <;> decide

end Format

structure Limits where
  maxHandSize : Nat
  startingHandSize : Nat
  maxEnergy : Int
  coreHealth : Int
  deriving DecidableEq, Repr

namespace Limits

def standard : Limits := ⟨7, 2, 10, 20⟩

def encode (l : Limits) : Json :=
  .obj [("max_hand_size", .ofNat l.maxHandSize), ("starting_hand_size", .ofNat l.startingHandSize),
    ("max_energy", .int l.maxEnergy), ("core_health", .int l.coreHealth)]

def decode (v : Json) : Option Limits := do
  let [maxHandSize, startingHandSize, maxEnergy, coreHealth] ←
    v.record? ["max_hand_size", "starting_hand_size", "max_energy", "core_health"] | none
  return {
    maxHandSize := ← maxHandSize.orElse Json.nat64? standard.maxHandSize
    startingHandSize := ← startingHandSize.orElse Json.nat64? standard.startingHandSize
    maxEnergy := ← maxEnergy.orElse Json.int32? standard.maxEnergy
    coreHealth := ← coreHealth.orElse Json.int32? standard.coreHealth }

end Limits

/-- A line of the log. Its time is kept when a stored match is read, and new lines have none. -/
structure LogEntry where
  player : Option Color
  text : String
  time : Int
  cards : List Card

namespace LogEntry

def encode (e : LogEntry) : Json :=
  .obj [("player", .ofOption Color.encode e.player), ("text", .str e.text),
    ("timestamp", .int e.time), ("cards", .ofList Card.encode e.cards)]

def decode (v : Json) : Option LogEntry := do
  let [player, text, time, cards] ← v.record? ["player", "text", "timestamp", "cards"] | none
  return {
    player := ← player.optional Color.decode
    text := ← text.required Json.text?
    time := ← time.required Json.int64?
    cards := ← cards.required (Json.list? Card.decode) }

end LogEntry

inductive Animation where
  | move (start goal : Hex)
  | attack (start goal : Hex)
  deriving DecidableEq, Repr

namespace Animation

def encode : Animation → Json
  | .move start goal => .tagged "move" (.obj [("from", start.encode), ("to", goal.encode)])
  | .attack start goal => .tagged "attack" (.obj [("from", start.encode), ("to", goal.encode)])

def decode (v : Json) : Option Animation := do
  let (name, data) ← v.variant?
  let [start, goal] ← (← data).fields? ["from", "to"] | none
  let start ← start.required Hex.decode
  let goal ← goal.required Hex.decode
  match name with
  | "move" => some (.move start goal)
  | "attack" => some (.attack start goal)
  | _ => none

end Animation

/-- A command that goes by a player's choices: what is run again once a target is named. -/
inductive Resumption where
  | playCard (card : CardId) (hex : Option Hex)
  | movePiece (start goal : Hex)
  | attackPiece (start target : Hex)
  | activateAbility (hex : Hex) (index : Nat)
  deriving DecidableEq, Repr

namespace Resumption

def encode : Resumption → Json
  | .playCard card hex =>
    .tagged "playCard" (.obj [("card_id", .str card), ("hex", .ofOption Hex.encode hex)])
  | .movePiece start goal =>
    .tagged "moveObject" (.obj [("from", start.encode), ("to", goal.encode)])
  | .attackPiece start target =>
    .tagged "attackObject" (.obj [("from", start.encode), ("target", target.encode)])
  | .activateAbility hex index =>
    .tagged "activateAbility" (.obj [("hex", hex.encode), ("ability_index", .ofNat index)])

def decode (v : Json) : Option Resumption := do
  let (name, data) ← v.variant?
  match name with
  | "playCard" => do
    let [card, hex] ← (← data).fields? ["card_id", "hex"] | none
    return .playCard (← card.required Json.text?) (← hex.optional Hex.decode)
  | "moveObject" => do
    let [start, goal] ← (← data).fields? ["from", "to"] | none
    return .movePiece (← start.required Hex.decode) (← goal.required Hex.decode)
  | "attackObject" => do
    let [start, target] ← (← data).fields? ["from", "target"] | none
    return .attackPiece (← start.required Hex.decode) (← target.required Hex.decode)
  | "activateAbility" => do
    let [hex, index] ← (← data).fields? ["hex", "ability_index"] | none
    return .activateAbility (← hex.required Hex.decode) (← index.required Json.nat64?)
  | _ => none

end Resumption

structure Prompt where
  player : Color
  resumption : Resumption
  deriving DecidableEq, Repr

namespace Prompt

def encode (p : Prompt) : Json :=
  .obj [("player", p.player.encode), ("resumption", p.resumption.encode)]

def decode (v : Json) : Option Prompt := do
  let [player, resumption] ← v.record? ["player", "resumption"] | none
  return ⟨← player.required Color.decode, ← resumption.required Resumption.decode⟩

end Prompt

structure Match where
  turn : Color
  seats : PerSide Seat
  usernames : PerSide String
  format : Format
  limits : Limits
  /-- Whose point of view log and sounds are made for. -/
  viewpoint : Color
  board : Board
  random : Generator
  lastId : Nat
  turnNumber : Nat
  log : List LogEntry
  sounds : List String
  animations : List Animation
  winner : Option Color
  pending : Option Prompt
  /-- An event card is being resolved and still holds its place in the hand. -/
  eventResolving : Bool
  /-- Why the last command was refused. -/
  refusal : Option Rejection

namespace Match

def seat (m : Match) (c : Color) : Seat := m.seats.get c

def isOver (m : Match) : Bool := m.winner.isSome

def cardsInHands (m : Match) : List Card := Color.all.flatMap fun c => (m.seat c).hand

def holderOf? (m : Match) (id : CardId) : Option Color :=
  Color.all.find? fun c => ((m.seat c).cardInHand? id).isSome

/-! ### Changes -/

def changeSeat (m : Match) (c : Color) (f : Seat → Seat) : Match :=
  { m with seats := m.seats.modify c f }

def changeBoard (m : Match) (f : Board → Board) : Match := { m with board := f m.board }

def changePiece (m : Match) (id : PieceId) (f : Piece → Piece) : Match :=
  m.changeBoard (·.modify id f)

@[simp] theorem changePiece_seats (m : Match) (id : PieceId) (f : Piece → Piece) :
    (m.changePiece id f).seats = m.seats := rfl

def changeCard (m : Match) (c : Color) (id : CardId) (f : Card → Card) : Match :=
  m.changeSeat c fun s => { s with hand := Seat.changeFirst id f s.hand }

def setSelection (m : Match) (c : Color) (selection : Selection) : Match :=
  m.changeSeat c fun s => { s with selection := selection }

def setStatus (m : Match) (c : Color) (text : String) : Match :=
  m.changeSeat c fun s => { s with status := text }

def addToHand (m : Match) (c : Color) (card : Card) : Match :=
  m.changeSeat c fun s => { s with hand := s.hand ++ [card] }

def discard (m : Match) (c : Color) (card : Card) : Match :=
  m.changeSeat c fun s => { s with discard := s.discard ++ [card] }

def dropFromHand (m : Match) (c : Color) (id : CardId) : Match :=
  m.changeSeat c fun s => { s with hand := s.hand.eraseP (·.id == id) }

def playSound (m : Match) (sound : String) : Match := { m with sounds := m.sounds ++ [sound] }

def animate (m : Match) (a : Animation) : Match := { m with animations := m.animations ++ [a] }

/-- Who a line of the log is about, as its first word. -/
def subject (m : Match) : Option Color → String
  | none => ""
  | some c => if c = m.viewpoint then "You " else m.usernames.get c ++ " "

def addLog (m : Match) (player : Option Color) (text : String) (cards : List Card) : Match :=
  { m with log := m.log ++ [⟨player, m.subject player ++ text ++ ".", 0, cards⟩] }

def chime (m : Match) (player : Color) : Match :=
  if player = m.viewpoint then m.playSound "yourmove.wav" else m

/-- Records a refusal and touches nothing else. -/
def reject (m : Match) (player : Color) (r : Rejection) : Match :=
  { m.setStatus player r.message with refusal := some r }

/-- Who has won: a player without a core has lost, and blue is looked at first. -/
def victor (b : Board) : Option Color :=
  if !b.hasCore .blue then some .orange
  else if !b.hasCore .orange then some .blue
  else none

def declareWinner (m : Match) (winner : Color) : Match :=
  let m := { m with winner := some winner }
  if winner = m.viewpoint then (m.playSound "win.wav").addLog (some winner) "win" []
  else (m.playSound "lose.wav").addLog (some winner) "wins" []

/-- Decides the match once a core is gone; a decision stands. -/
def checkVictory (m : Match) : Match :=
  match m.winner with
  | some _ => m
  | none =>
    match victor m.board with
    | some winner => m.declareWinner winner
    | none => m

theorem checkVictory_of_winner {m : Match} {c : Color} (h : m.winner = some c) :
    m.checkVictory = m := by simp [checkVictory, h]

/-- Moves the top card of the deck out of the deck; when the deck is shared, out of both. -/
def takeTop (m : Match) (c : Color) : Match :=
  let m := m.changeSeat c fun s => { s with deck := s.deck.tail }
  match m.format with
  | .normal => m
  | .sharedDeck => m.changeSeat c.opponent fun s => { s with deck := s.deck.tail }

def topCard? (m : Match) (c : Color) : Option Card := (m.seat c).deck.head?

def drawTop (m : Match) (c : Color) : Match :=
  match m.topCard? c with
  | none => m
  | some card => (m.takeTop c).addToHand c card

def burnTop (m : Match) (c : Color) : Match :=
  match m.topCard? c with
  | none => m
  | some card => (m.takeTop c).discard c card

/-! ### Text -/

def encode (m : Match) : Json :=
  .obj [("current_turn", m.turn.encode), ("players", m.seats.encode Seat.encode),
    ("usernames", m.usernames.encode .str), ("format", m.format.encode),
    ("options", m.limits.encode), ("perspective", m.viewpoint.encode),
    ("board", m.board.encode), ("rng", m.random.encode), ("next_id", .ofNat m.lastId),
    ("turn_number", .ofNat m.turnNumber), ("action_log", .ofList LogEntry.encode m.log),
    ("sfx_queue", .ofList .str m.sounds),
    ("animation_queue", .ofList Animation.encode m.animations),
    ("winner", .ofOption Color.encode m.winner), ("pending", .ofOption Prompt.encode m.pending),
    ("event_executing", .bool m.eventResolving),
    ("invalid", .ofOption Rejection.encode m.refusal)]

def decode (v : Json) : Option Match := do
  let [turn, seats, usernames, format, limits, viewpoint, board, random, lastId, turnNumber, log,
      sounds, animations, winner, pending, eventResolving, refusal] ←
    v.record? ["current_turn", "players", "usernames", "format", "options", "perspective", "board",
      "rng", "next_id", "turn_number", "action_log", "sfx_queue", "animation_queue", "winner",
      "pending", "event_executing", "invalid"] | none
  return {
    turn := ← turn.required Color.decode
    seats := ← seats.required (PerSide.decode Seat.decode)
    usernames := ← usernames.required (PerSide.decode Json.text?)
    format := ← format.required Format.decode
    limits := ← limits.required Limits.decode
    viewpoint := ← viewpoint.required Color.decode
    board := ← board.required Board.decode
    random := ← random.required Generator.decode
    lastId := ← lastId.required Json.nat64?
    turnNumber := ← turnNumber.required Json.nat32?
    log := ← log.required (Json.list? LogEntry.decode)
    sounds := ← sounds.required (Json.list? Json.text?)
    animations := ← animations.required (Json.list? Animation.decode)
    winner := ← winner.optional Color.decode
    pending := ← pending.optional Prompt.decode
    eventResolving := ← eventResolving.required Json.bool?
    refusal := ← refusal.optional Rejection.decode }

/-- The state as a text in which no line of the log has a time: two matches went the same way when
their fingerprints are the same. -/
def fingerprint (m : Match) : String :=
  ({ m with log := m.log.map fun e => { e with time := 0 } } : Match).encode.compact

end Match
end HexDuel
