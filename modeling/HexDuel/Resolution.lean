import HexDuel.Play

/-!
What targets, conditions and numbers stand for in a match. Choices use up what the player named, or
ask; random picks, copies and generated cards draw on the generator and the ids. All else only
looks.
-/

set_option autoImplicit false

namespace HexDuel

namespace Outcome

/-- The entries that pass, tested in order. -/
def keep {α : Type} (test : α → Outcome Bool) : List α → Outcome (List α)
  | [] => .ok []
  | a :: as => do
    let passes ← test a
    let rest ← keep test as
    return if passes then a :: rest else rest

/-- Whether all tests pass; none is made behind one that does not. -/
def all {α : Type} (test : α → Outcome Bool) : List α → Outcome Bool
  | [] => .ok true
  | a :: as => do if ← test a then all test as else return false

theorem keep_sublist {α : Type} {test : α → Outcome Bool} {xs ys : List α}
    (h : keep test xs = .ok ys) : ys.Sublist xs := by
  induction xs generalizing ys with
  | nil => cases h; exact .slnil
  | cons a as ih =>
    unfold keep at h
    cases ht : test a with
    | error f => rw [ht] at h; cases h
    | ok b =>
      cases hk : keep test as with
      | error f => rw [ht, hk] at h; cases h
      | ok zs =>
        rw [ht, hk] at h
        cases b <;> cases h
        · exact (ih hk).cons a
        · exact (ih hk).cons_cons a

end Outcome

namespace Collection

def hexesIn (m : Match) : Collection → Outcome (List Hex)
  | .pieces ids => .ok ((ids.filterMap m.board.get?).map (·.hex))
  | .hexes xs => .ok xs
  | c => .error (.mismatch .piecesOrHexes c.kind)

def piecesIn (m : Match) : Collection → Outcome (List PieceId)
  | .pieces ids => .ok ids
  | .hexes xs => .ok (xs.filterMap m.board.idAt?)
  | c => .error (.mismatch .pieces c.kind)

/-- Each entry's number; an entry that lacks it counts as zero. -/
def valuesIn (m : Match) (stat : Attribute) : Collection → Outcome (List Int)
  | .pieces ids => (ids.filterMap m.board.get?).mapM (·.value stat)
  | .cards xs => .ok (xs.map fun c => (c.stats.bind (·.get stat)).getD 0)
  | c => .error (.mismatch .piecesOrCards c.kind)

/-- What is salient, as a collection of one; an object that left the board is nothing. -/
def ofSalient (m : Match) : Option Salient → Collection
  | some (.piece id) => if m.board.contains id then .pieces [id] else .pieces []
  | some (.card c) => .cards [c]
  | none => .pieces []

end Collection

/-- A condition whose targets and numbers are known. -/
inductive Predicate where
  | inHexes (hexes : List Hex)
  | controlledBy (player : Option Color)
  | attributeIs (stat : Attribute) (comparison : Comparison) (value : Int)
  | hasId (id : PieceId)
  | hasProperty (property : Property)
  | unoccupied

/-- Whether a cell with that object on it satisfies the predicate. -/
def Predicate.holds : Predicate → Hex → Option Piece → Outcome Bool
  | .inHexes hexes, h, _ => .ok (hexes.contains h)
  | .controlledBy (some c), _, some p => .ok (p.owner == c)
  | .controlledBy _, _, _ => .ok false
  | .attributeIs stat comparison value, _, some p => do
    match ← p.value? stat with
    | some actual => return comparison.holds actual value
    | none => return false
  | .attributeIs _ _ _, _, none => .ok false
  | .hasId id, _, some p => .ok (p.id == id)
  | .hasId _, _, none => .ok false
  | .hasProperty property, _, some p => p.has property
  | .hasProperty _, _, none => .ok false
  | .unoccupied, _, p => .ok p.isNone

def Predicate.allHold (ps : List Predicate) (h : Hex) (p : Option Piece) : Outcome Bool :=
  Outcome.all (·.holds h p) ps

namespace Resolving

def game : Resolving Match := fun ctx => do return (← Play.game, ctx)

def change (f : Match → Match) : Resolving Unit := fun ctx => do return (← Play.change f, ctx)

def note (h : Happening) : Resolving Unit := fun ctx => do return (← Play.note h, ctx)

/-! ### Random picks -/

/-- Names as a list in a sentence: "A", "A and B", "A, B, and C". -/
def sentence : List String → String
  | [] => ""
  | [a] => a
  | [a, b] => a ++ " and " ++ b
  | names =>
    String.intercalate ", " names.dropLast ++ ", and " ++ names.getLastD ""

def cardsShown (m : Match) : Collection → List Card
  | .cards xs => xs
  | .pieces ids => (ids.filterMap m.board.get?).map (·.card)
  | _ => []

def pickFrom {α : Type} (count : Nat) (xs : List α) : Resolving (List α) := do
  let (picked, g) := Generator.pick count xs (← game).random
  change fun m => { m with random := g }
  return picked

def pick (count : Nat) : Collection → Resolving Collection
  | .cards xs => return .cards (← pickFrom count xs)
  | .pieces xs => return .pieces (← pickFrom count xs)
  | .players xs => return .players (← pickFrom count xs)
  | .hexes xs => return .hexes (← pickFrom count xs)

/-- A pick at random, without replacement; the cards picked are named in the log. -/
def random (count : Nat) (candidates : Collection) : Resolving Collection := do
  let picked ← pick count candidates
  note (.picked picked)
  let cards := cardsShown (← game) picked
  if cards.isEmpty then return picked
  else do
    let verb := if cards.length = 1 then "was" else "were"
    change (·.addLog none s!"{sentence (cards.map Card.mention)} {verb} selected" cards)
    return picked

/-! ### Choices -/

/-- What a player may name out of a collection. Objects that are just being played are not on
offer. -/
def offer (b : Board) : Collection → Selection
  | .cards xs => { Selection.none with choosing := true, cards := xs.map (·.id) }
  | .pieces ids =>
    { Selection.none with
      choosing := true
      hexes := ((ids.filterMap b.get?).filter (!·.justPlayed)).map (·.hex) }
  | .hexes xs =>
    { Selection.none with
      choosing := true
      hexes := xs.filter fun h => ((b.pieceAt? h).map (!·.justPlayed)).getD true }
  | .players _ => { Selection.none with choosing := true }

/-- The card of that id, looked for among the candidates and then in the hands. -/
def findCard (m : Match) (candidates : Collection) (id : CardId) : Option Card :=
  let among : Option Card :=
    match candidates with
    | .cards xs => xs.find? (·.id == id)
    | _ => none
  among.or (m.cardsInHands.find? (·.id == id))

/-- What a named target stands for. -/
def named (m : Match) (candidates : Collection) : Choice → Collection
  | .hex h =>
    match m.board.idAt? h with
    | some id => .pieces [id]
    | none => .hexes [h]
  | .card id =>
    match findCard m candidates id with
    | some c => .cards [c]
    | none => .cards []

/-- A single object or card becomes salient when it is named. -/
def salientOf : Collection → Option Salient
  | .pieces [id] => some (.piece id)
  | .cards [c] => some (.card c)
  | _ => none

/-- Uses up the first thing that the player named. -/
def answer (player : Color) (choice : Choice) (later : List Choice) (candidates : Collection) :
    Resolving Collection := do
  let m ← game
  let found := named m candidates choice
  change (·.setSelection player { (m.seat player).selection with chosen := later })
  note (.answered player choice candidates found m.board)
  modify fun ctx => { ctx with it := (salientOf found).or ctx.it }
  return found

/-- Offers the candidates to the player, unless a prompt stands already. Without a candidate the
command is refused. -/
def ask (player : Color) (candidates : Collection) : Resolving Collection := do
  let m ← game
  let selection := (m.seat player).selection
  if selection.choosing then return candidates.emptied
  else do
    let offered := offer m.board candidates
    if offered.hexes.isEmpty && offered.cards.isEmpty then do
      change fun m => { m with refusal := some .noValidTargets }
      return candidates.emptied
    else do
      change (·.setSelection player { offered with chosen := selection.chosen })
      note (.suspended player candidates m.board)
      return candidates.emptied

/-- What the player to move named, or nothing yet when that player has still to be asked. -/
def consult (candidates : Collection) : Resolving Collection := do
  let m ← game
  match (m.seat m.turn).selection.chosen with
  | choice :: later => answer m.turn choice later candidates
  | [] => ask m.turn candidates

/-- One of the candidates, at random when nobody can be asked. -/
def choose (candidates : Collection) : Resolving Collection := do
  if candidates.kind = .players then throw .choiceOfPlayers
  else if !(← get).interactive then random 1 candidates
  else consult candidates

/-! ### Fabricated cards -/

def freshCardId : Resolving CardId := fun ctx => do return (s!"token/{← Play.freshId}", ctx)

/-- A copy under a new id, at its printed cost. -/
def copyOf (template : Option Card) : Resolving Collection :=
  match template with
  | none => return .cards []
  | some c => do
    let id ← freshCardId
    return .cards [{ c with id := id, cost := c.baseCost, costAdjustments := [] }]

def generate (type : CardType) (stats : Stats) (name : Option String) : Resolving Collection := do
  let id ← freshCardId
  return .cards [{
    id := id, name := name.getD "Token", type := type, baseCost := 0, cost := 0,
    stats := some stats, text := "", sentences := [], origin := .generated,
    costAdjustments := [] }]

/-- The card that is to be copied: the first card, or the card of the first object. -/
def template (m : Match) : Collection → Outcome (Option Card)
  | .pieces ids => .ok ((ids.head?.bind m.board.get?).map (·.card))
  | .cards xs => .ok xs.head?
  | c => .error (.mismatch .piecesOrCards c.kind)

/-- Who controls a single object or holds a single card; nobody else is anyone's controller. -/
def controllers (m : Match) : Collection → Outcome (List Color)
  | .pieces [id] => .ok ((m.board.get? id).map (·.owner)).toList
  | .cards [c] => .ok (m.holderOf? c.id).toList
  | .hexes xs => .error (.mismatch .piecesOrCards (Collection.hexes xs).kind)
  | _ => .ok []

/-! ### The phrases -/

mutual

def resolve : Target → Resolving Collection
  | .allTiles => return .hexes Hex.all
  | .cardsInHand player types => do
    let players ← (← resolve player).asPlayers
    let m ← game
    return .cards ((players.flatMap fun c => (m.seat c).hand).filter (types.admits ·.type))
  | .piecesInPlay types => do
    return .pieces (((← game).board.pieces.filter (types.admits ·.type)).map (·.id))
  | .piecesMatching types conditions => do
    let predicates ← compileAll conditions
    let candidates := (← game).board.pieces.filter (types.admits ·.type)
    let found ← Outcome.keep (fun p => Predicate.allHold predicates p.hex (some p)) candidates
    return .pieces (found.map (·.id))
  | .tilesMatching conditions => do
    let predicates ← compileAll conditions
    let m ← game
    return .hexes
      (← Outcome.keep (fun h => Predicate.allHold predicates h (m.board.pieceAt? h)) Hex.all)
  | .all inner => resolve inner
  | .choose inner => do choose (← resolve inner)
  | .random count pool => do random count (← resolve pool)
  | .it => do return .ofSalient (← game) (← get).itNow
  | .that => do return .ofSalient (← game) (← get).thatNow
  | .they => do return .ofSalient (← game) (← get).theyNow
  | .thisPiece => do return .ofSalient (← game) ((← get).current.map .piece)
  | .allPlayers => do
    let m ← game
    return .players [m.turn, m.turn.opponent]
  | .selfPlayer => do return .players [(← get).controllerIn (← game)]
  | .opponent => do return .players [((← get).controllerIn (← game)).opponent]
  | .salientPlayer => do return .players [(← get).salientPlayer.getD (← game).turn.opponent]
  | .controllerOf inner => do
    let collection ← resolve inner
    return .players (← controllers (← game) collection)
  | .copyOf inner => do
    let collection ← resolve inner
    copyOf (← template (← game) collection)
  | .generateCard type stats name => generate type stats name

def compile : Condition → Resolving Predicate
  | .adjacentTo target => do
    let collection ← resolve target
    return .inHexes ((← collection.hexesIn (← game)).flatMap Hex.neighbors)
  | .attributeIs stat comparison value => do
    return .attributeIs stat comparison (← evaluate value)
  | .controlledBy target => do
    return .controlledBy (← (← resolve target).asPlayers).head?
  | .exactDistance distance target => do
    let collection ← resolve target
    let anchors ← collection.hexesIn (← game)
    return .inHexes (Hex.all.filter fun h => anchors.any fun a => h.distance a == distance)
  | .withinDistance distance target => do
    let collection ← resolve target
    let anchors ← collection.hexesIn (← game)
    return .inHexes (Hex.all.filter fun h => anchors.any fun a => h.distance a ≤ distance)
  | .hasId id => return .hasId id
  | .hasProperty property => return .hasProperty property
  | .unoccupied => return .unoccupied

def compileAll : List Condition → Resolving (List Predicate)
  | [] => return []
  | c :: cs => do
    let p ← compile c
    return p :: (← compileAll cs)

def evaluate : Number → Resolving Int
  | .const value => return value
  | .count target => do return Outcome.wrap32 (← resolve target).size
  | .attributeSum target stat => do
    let collection ← resolve target
    let values ← collection.valuesIn (← game) stat
    (values.foldlM (fun sum v => Outcome.int32 (sum + v)) 0 : Outcome Int)
  | .attributeValue target stat => do
    let collection ← resolve target
    return (← collection.valuesIn (← game) stat).headD 0

end

def evaluateState : StateCondition → Resolving Bool
  | .collectionExists target => do return !(← resolve target).isEmpty
  | .targetHasProperty target property => do
    let collection ← resolve target
    let m ← game
    let ids ← collection.piecesIn m
    Outcome.all (·.has property) (ids.filterMap m.board.get?)

def resolveModifier (modifier : Modifier) : Resolving Adjustment := do
  return modifier.adjustment (← evaluate modifier.number)

def resolvePieces (target : Target) : Resolving (List PieceId) := do
  let collection ← resolve target
  collection.piecesIn (← game)

end Resolving
end HexDuel
