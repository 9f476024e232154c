import HexDuel.Stats

/-!
The part of the card language that selects: targets, conditions on a cell and what stands on it, and
numbers counted or read off targets. The three refer to one another.
-/

set_option autoImplicit false

namespace HexDuel

inductive Property where
  | attackedLastTurn
  | attackedThisTurn
  | movedLastTurn
  | movedThisTurn
  | isDestroyed
  | isDamaged
  deriving DecidableEq, Repr

namespace Property

def all : List Property :=
  [.attackedLastTurn, .attackedThisTurn, .movedLastTurn, .movedThisTurn, .isDestroyed, .isDamaged]

def name : Property → String
  | .attackedLastTurn => "attackedLastTurn"
  | .attackedThisTurn => "attackedThisTurn"
  | .movedLastTurn => "movedLastTurn"
  | .movedThisTurn => "movedThisTurn"
  | .isDestroyed => "isDestroyed"
  | .isDamaged => "isDamaged"

def encode (p : Property) : Json := .str p.name

def decode : Json → Option Property := Json.named? name all

@[simp] theorem decode_encode (p : Property) : decode p.encode = some p := by cases p <;> decide

end Property

mutual

inductive Target where
  | allTiles
  | cardsInHand (player : Target) (types : TypeQuery)
  | piecesInPlay (types : TypeQuery)
  | piecesMatching (types : TypeQuery) (conditions : List Condition)
  | tilesMatching (conditions : List Condition)
  | all (inner : Target)
  | choose (inner : Target)
  | random (count : Nat) (pool : Target)
  | it
  | that
  | they
  | thisPiece
  | allPlayers
  | selfPlayer
  | opponent
  | salientPlayer
  | controllerOf (inner : Target)
  | copyOf (inner : Target)
  | generateCard (type : CardType) (stats : Stats) (name : Option String)

/-- What a cell and the object on it may be asked. -/
inductive Condition where
  | adjacentTo (target : Target)
  | attributeIs (stat : Attribute) (comparison : Comparison) (value : Number)
  | controlledBy (target : Target)
  | exactDistance (distance : Nat) (target : Target)
  | withinDistance (distance : Nat) (target : Target)
  | hasId (id : Nat)
  | hasProperty (property : Property)
  | unoccupied

inductive Number where
  | const (value : Int)
  | count (target : Target)
  | attributeSum (target : Target) (stat : Attribute)
  | attributeValue (target : Target) (stat : Attribute)

end

instance : Inhabited Target := ⟨.it⟩

instance : Inhabited Condition := ⟨.unoccupied⟩

instance : Inhabited Number := ⟨.const 0⟩

inductive StateCondition where
  | collectionExists (target : Target)
  | targetHasProperty (target : Target) (property : Property)

/-- An adjustment whose number is not known yet. -/
inductive Modifier where
  | add (value : Number)
  | subtract (value : Number)
  | multiply (value : Number)
  | divide (value : Number)
  | set (value : Number)

def Modifier.number : Modifier → Number
  | .add n | .subtract n | .multiply n | .divide n | .set n => n

def Modifier.adjustment : Modifier → Int → Adjustment
  | .add _, i => .add i
  | .subtract _, i => .subtract i
  | .multiply _, i => .multiply i
  | .divide _, i => .divide i
  | .set _, i => .set i

/-! ### Writing -/

mutual

def Target.encode : Target → Json
  | .allTiles => .str "allTiles"
  | .cardsInHand player types =>
    .tagged "cardsInHand" (.obj [("player", player.encode), ("cardType", types.encode)])
  | .piecesInPlay types => .tagged "objectsInPlay" types.encode
  | .piecesMatching types conditions =>
    .tagged "objectsMatching"
      (.obj [("objectType", types.encode), ("conditions", .arr (encodeConditions conditions))])
  | .tilesMatching conditions => .tagged "tilesMatching" (.arr (encodeConditions conditions))
  | .all inner => .tagged "all" inner.encode
  | .choose inner => .tagged "choose" inner.encode
  | .random count pool =>
    .tagged "random" (.obj [("count", .ofNat count), ("from", pool.encode)])
  | .it => .str "it"
  | .that => .str "that"
  | .they => .str "they"
  | .thisPiece => .str "thisObject"
  | .allPlayers => .str "allPlayers"
  | .selfPlayer => .str "selfPlayer"
  | .opponent => .str "opponent"
  | .salientPlayer => .str "salientPlayer"
  | .controllerOf inner => .tagged "controllerOf" inner.encode
  | .copyOf inner => .tagged "copyOf" inner.encode
  | .generateCard type stats name =>
    .tagged "generateCard"
      (.obj [("cardType", type.encode), ("stats", stats.encode), ("name", .ofOption .str name)])

def Condition.encode : Condition → Json
  | .adjacentTo target => .tagged "adjacentTo" target.encode
  | .attributeIs stat comparison value =>
    .tagged "attributeComparison" (.obj [("attribute", stat.encode),
      ("comparison", comparison.encode), ("value", value.encode)])
  | .controlledBy target => .tagged "controlledBy" target.encode
  | .exactDistance distance target =>
    .tagged "exactDistanceFrom" (.obj [("distance", .ofNat distance), ("target", target.encode)])
  | .withinDistance distance target =>
    .tagged "withinDistanceOf" (.obj [("distance", .ofNat distance), ("target", target.encode)])
  | .hasId id => .tagged "hasId" (.ofNat id)
  | .hasProperty property => .tagged "hasProperty" property.encode
  | .unoccupied => .str "unoccupied"

def encodeConditions : List Condition → List Json
  | [] => []
  | c :: cs => c.encode :: encodeConditions cs

def Number.encode : Number → Json
  | .const value => .tagged "const" (.int value)
  | .count target => .tagged "count" target.encode
  | .attributeSum target stat =>
    .tagged "attributeSum" (.obj [("target", target.encode), ("attribute", stat.encode)])
  | .attributeValue target stat =>
    .tagged "attributeValue" (.obj [("target", target.encode), ("attribute", stat.encode)])

end

def StateCondition.encode : StateCondition → Json
  | .collectionExists target => .tagged "collectionExists" target.encode
  | .targetHasProperty target property =>
    .tagged "targetHasProperty" (.obj [("target", target.encode), ("property", property.encode)])

def Modifier.encode : Modifier → Json
  | .add n => .tagged "add" n.encode
  | .subtract n => .tagged "subtract" n.encode
  | .multiply n => .tagged "multiply" n.encode
  | .divide n => .tagged "divide" n.encode
  | .set n => .tagged "set" n.encode

/-! ### Reading

A phrase is read by recursion on how deep it may still nest; the height of the value is enough. -/

/-- A variant that takes no data. -/
def bare {α : Type} (data : Option Json) (a : α) : Option α :=
  if Json.noData data then some a else none

mutual

def Target.decodeWithin : Nat → Json → Option Target
  | 0, _ => none
  | depth + 1, v => do
    let (name, data) ← v.variant?
    match name with
    | "allTiles" => bare data .allTiles
    | "cardsInHand" => do
      let [player, types] ← (← data).fields? ["player", "cardType"] | none
      return .cardsInHand (← player.required (Target.decodeWithin depth))
        (← types.required TypeQuery.decode)
    | "objectsInPlay" => return .piecesInPlay (← TypeQuery.decode (← data))
    | "objectsMatching" => do
      let [types, conditions] ← (← data).fields? ["objectType", "conditions"] | none
      return .piecesMatching (← types.required TypeQuery.decode)
        (← conditions.required (Json.list? (Condition.decodeWithin depth)))
    | "tilesMatching" => return .tilesMatching (← (← data).list? (Condition.decodeWithin depth))
    | "all" => return .all (← Target.decodeWithin depth (← data))
    | "choose" => return .choose (← Target.decodeWithin depth (← data))
    | "random" => do
      let [count, pool] ← (← data).fields? ["count", "from"] | none
      return .random (← count.required Json.nat64?) (← pool.required (Target.decodeWithin depth))
    | "it" => bare data .it
    | "that" => bare data .that
    | "they" => bare data .they
    | "thisObject" => bare data .thisPiece
    | "allPlayers" => bare data .allPlayers
    | "selfPlayer" => bare data .selfPlayer
    | "opponent" => bare data .opponent
    | "salientPlayer" => bare data .salientPlayer
    | "controllerOf" => return .controllerOf (← Target.decodeWithin depth (← data))
    | "copyOf" => return .copyOf (← Target.decodeWithin depth (← data))
    | "generateCard" => do
      let [type, stats, name] ← (← data).fields? ["cardType", "stats", "name"] | none
      return .generateCard (← type.required CardType.decode) (← stats.required Stats.decode)
        (← name.orElse (Json.option? Json.text?) none)
    | _ => none

def Condition.decodeWithin : Nat → Json → Option Condition
  | 0, _ => none
  | depth + 1, v => do
    let (name, data) ← v.variant?
    match name with
    | "adjacentTo" => return .adjacentTo (← Target.decodeWithin depth (← data))
    | "attributeComparison" => do
      let [stat, comparison, value] ←
        (← data).fields? ["attribute", "comparison", "value"] | none
      return .attributeIs (← stat.required Attribute.decode)
        (← comparison.required Comparison.decode) (← value.required (Number.decodeWithin depth))
    | "controlledBy" => return .controlledBy (← Target.decodeWithin depth (← data))
    | "exactDistanceFrom" => do
      let [distance, target] ← (← data).fields? ["distance", "target"] | none
      return .exactDistance (← distance.required Json.nat32?)
        (← target.required (Target.decodeWithin depth))
    | "withinDistanceOf" => do
      let [distance, target] ← (← data).fields? ["distance", "target"] | none
      return .withinDistance (← distance.required Json.nat32?)
        (← target.required (Target.decodeWithin depth))
    | "hasId" => return .hasId (← (← data).nat64?)
    | "hasProperty" => return .hasProperty (← Property.decode (← data))
    | "unoccupied" => bare data .unoccupied
    | _ => none

def Number.decodeWithin : Nat → Json → Option Number
  | 0, _ => none
  | depth + 1, v => do
    let (name, data) ← v.variant?
    match name with
    | "const" => return .const (← (← data).int32?)
    | "count" => return .count (← Target.decodeWithin depth (← data))
    | "attributeSum" => do
      let [target, stat] ← (← data).fields? ["target", "attribute"] | none
      return .attributeSum (← target.required (Target.decodeWithin depth))
        (← stat.required Attribute.decode)
    | "attributeValue" => do
      let [target, stat] ← (← data).fields? ["target", "attribute"] | none
      return .attributeValue (← target.required (Target.decodeWithin depth))
        (← stat.required Attribute.decode)
    | _ => none

end

def Target.decode (v : Json) : Option Target := Target.decodeWithin (v.height + 1) v

def Condition.decode (v : Json) : Option Condition := Condition.decodeWithin (v.height + 1) v

def Number.decode (v : Json) : Option Number := Number.decodeWithin (v.height + 1) v

def StateCondition.decode (v : Json) : Option StateCondition := do
  let (name, data) ← v.variant?
  match name with
  | "collectionExists" => return .collectionExists (← Target.decode (← data))
  | "targetHasProperty" => do
    let [target, property] ← (← data).fields? ["target", "property"] | none
    return .targetHasProperty (← target.required Target.decode)
      (← property.required Property.decode)
  | _ => none

def Modifier.decode (v : Json) : Option Modifier := do
  let (name, data) ← v.variant?
  let n ← Number.decode (← data)
  match name with
  | "add" => some (.add n)
  | "subtract" => some (.subtract n)
  | "multiply" => some (.multiply n)
  | "divide" => some (.divide n)
  | "set" => some (.set n)
  | _ => none

end HexDuel
