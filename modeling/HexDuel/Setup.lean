import HexDuel.Upkeep

/-!
How a match begins: shuffled decks, opening hands, and both cores in their places.
-/

set_option autoImplicit false

namespace HexDuel

/-- What is agreed on before a match. Without a seed the stream of seed zero is used. -/
structure MatchSetup where
  usernames : PerSide String
  decks : PerSide (List Card)
  format : Format
  limits : Limits
  seed : Option Nat
  viewpoint : Color

namespace MatchSetup

def encode (s : MatchSetup) : Json :=
  .obj [("usernames", s.usernames.encode .str), ("decks", s.decks.encode (.ofList Card.encode)),
    ("format", s.format.encode), ("options", s.limits.encode),
    ("seed", .ofOption .ofNat s.seed), ("perspective", s.viewpoint.encode)]

def decode (v : Json) : Option MatchSetup := do
  let [usernames, decks, format, limits, seed, viewpoint] ←
    v.record? ["usernames", "decks", "format", "options", "seed", "perspective"] | none
  return {
    usernames := ← usernames.required (PerSide.decode Json.text?)
    decks := ← decks.required (PerSide.decode (Json.list? Card.decode))
    format := ← format.orElse Format.decode .normal
    limits := ← limits.orElse Limits.decode .standard
    seed := ← seed.orElse (Json.option? Json.nat64?) none
    viewpoint := ← viewpoint.orElse Color.decode .blue }

def checkDeck (owner : Color) (deck : List Card) : Outcome Unit :=
  match deck.find? (·.type == .core) with
  | some c => .error (.coreInDeck owner c.name)
  | none =>
    match deck.find? fun c => c.type.isPiece && c.stats.isNone with
    | some c => .error (.statsMissing c.name)
    | none => .ok ()

def check (s : MatchSetup) : Outcome Unit := do
  checkDeck .blue s.decks.blue
  checkDeck .orange s.decks.orange
  if s.limits.maxHandSize = 0 || s.limits.maxEnergy ≤ 0 then throw .limitsNotPositive

/-- A player's deck, with the owner in the ids, so that both may bring the same cards. -/
def ownedBy (owner : Color) (deck : List Card) : List Card :=
  deck.map fun c => { c with id := s!"{owner.name}/{c.id}" }

@[simp] theorem length_ownedBy (owner : Color) (deck : List Card) :
    (ownedBy owner deck).length = deck.length := by simp [ownedBy]

/-- Both decks after the shuffle, and the generator behind it. -/
def shuffledDecks (s : MatchSetup) (g : Generator) : PerSide (List Card) × Generator :=
  let blue := ownedBy .blue s.decks.blue
  let orange := ownedBy .orange s.decks.orange
  match s.format with
  | .normal =>
    let (blue, g) := g.shuffle blue
    let (orange, g) := g.shuffle orange
    (⟨blue, orange⟩, g)
  | .sharedDeck =>
    let (shared, g) := g.shuffle (blue ++ orange)
    (⟨shared, shared⟩, g)

def coreCard (owner : Color) (health : Int) : Card where
  id := s!"{owner.name}/core"
  name :=
    match owner with
    | .blue => "Blue Core"
    | .orange => "Orange Core"
  type := .core
  baseCost := 0
  cost := 0
  stats := some (.still health)
  text := ""
  sentences := []
  origin := .builtin
  costAdjustments := []

def core (owner : Color) (id : PieceId) (health : Int) : Piece :=
  .new id (coreCard owner health) owner owner.coreHex

def openingBoard (health : Int) : Board :=
  ⟨[(1, core .blue 1 health), (2, core .orange 2 health)]⟩

/-- Before any card is drawn. -/
def tableOf (s : MatchSetup) : Match :=
  let (decks, g) := s.shuffledDecks (.ofSeed (s.seed.getD 0))
  { turn := .blue
    seats := ⟨.new .blue decks.blue, .new .orange decks.orange⟩
    usernames := s.usernames
    format := s.format
    limits := s.limits
    viewpoint := s.viewpoint
    board := openingBoard s.limits.coreHealth
    random := g
    lastId := 2
    turnNumber := 1
    log := []
    sounds := []
    animations := []
    winner := none
    pending := none
    eventResolving := false
    refusal := none }

/-- The match before blue's first turn, which has one energy. -/
def start (s : MatchSetup) : Outcome Match := do
  s.check
  let dealt := Color.all.foldl (fun m c => Play.drawTimes c s.limits.startingHandSize m) s.tableOf
  return dealt.changeSeat .blue fun seat => { seat with energy := ⟨1, 1⟩ }

end MatchSetup
end HexDuel
