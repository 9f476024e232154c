import HexDuel.Phrase.Sentence

/-!
Cards: the entries of a library and the copies of them in a match.
-/

set_option autoImplicit false

namespace HexDuel

abbrev AbilityId := Nat

abbrev CardId := String

def abilityName (id : AbilityId) : String := s!"ability#{id}"

/-- An adjustment that an ability holds on an attribute, or on a cost when it names none. It goes
when the ability does. -/
structure StatAdjustment where
  ability : AbilityId
  stat : Option Attribute
  adjustment : Adjustment
  deriving DecidableEq, Repr

namespace StatAdjustment

def encode (a : StatAdjustment) : Json :=
  .obj [("aid", .ofNat a.ability), ("attribute", .ofOption Attribute.encode a.stat),
    ("adjustment", a.adjustment.encode)]

def decode (v : Json) : Option StatAdjustment := do
  let [ability, stat, adjustment] ← v.record? ["aid", "attribute", "adjustment"] | none
  return {
    ability := ← ability.required Json.nat64?
    stat := ← stat.optional Attribute.decode
    adjustment := ← adjustment.required Adjustment.decode }

end StatAdjustment

structure Card where
  id : CardId
  name : String
  type : CardType
  baseCost : Int
  cost : Int
  stats : Option Stats
  text : String
  sentences : List Sentence
  origin : Origin
  costAdjustments : List StatAdjustment

namespace Card

instance : Inhabited Card := ⟨⟨"", "", .event, 0, 0, none, "", [], .builtin, []⟩⟩

def effectiveCost (c : Card) : Outcome Int :=
  Adjustment.applyAll (c.costAdjustments.map (·.adjustment)) c.cost

def baseHealth (c : Card) : Int := (c.stats.map (·.health)).getD 0

/-- Without what abilities hold on its cost. -/
def reset (c : Card) : Card := { c with costAdjustments := [] }

@[simp] theorem effectiveCost_reset (c : Card) : c.reset.effectiveCost = .ok c.cost := rfl

def mention (c : Card) : String := s!"|{c.name}|"

def encode (c : Card) : Json :=
  .obj [("id", .str c.id), ("name", .str c.name), ("type", c.type.encode),
    ("base_cost", .int c.baseCost), ("cost", .int c.cost),
    ("stats", .ofOption Stats.encode c.stats), ("text", .str c.text),
    ("abilities", .ofList Sentence.encode c.sentences), ("source", c.origin.encode),
    ("cost_adjustments", .ofList StatAdjustment.encode c.costAdjustments)]

def decode (v : Json) : Option Card := do
  let [id, name, type, baseCost, cost, stats, text, sentences, origin, adjustments] ←
    v.record? ["id", "name", "type", "base_cost", "cost", "stats", "text", "abilities", "source",
      "cost_adjustments"] | none
  return {
    id := ← id.required Json.text?
    name := ← name.required Json.text?
    type := ← type.required CardType.decode
    baseCost := ← baseCost.required Json.int32?
    cost := ← cost.required Json.int32?
    stats := ← stats.optional Stats.decode
    text := ← text.orElse Json.text? ""
    sentences := ← sentences.orElse (Json.list? Sentence.decode) []
    origin := ← origin.orElse Origin.decode .builtin
    costAdjustments := ← adjustments.orElse (Json.list? StatAdjustment.decode) [] }

end Card

structure CardEntry where
  name : String
  type : CardType
  cost : Int
  stats : Option Stats
  text : String
  sentences : List Sentence
  origin : Origin

namespace CardEntry

def instantiate (d : CardEntry) (id : CardId) : Card where
  id := id
  name := d.name
  type := d.type
  baseCost := d.cost
  cost := d.cost
  stats := d.stats
  text := d.text
  sentences := d.sentences
  origin := d.origin
  costAdjustments := []

@[simp] theorem instantiate_id (d : CardEntry) (id : CardId) : (d.instantiate id).id = id := rfl

def encode (d : CardEntry) : Json :=
  .obj [("name", .str d.name), ("type", d.type.encode), ("cost", .int d.cost),
    ("stats", .ofOption Stats.encode d.stats), ("text", .str d.text),
    ("abilities", .ofList Sentence.encode d.sentences), ("source", d.origin.encode)]

def decode (v : Json) : Option CardEntry := do
  let [name, type, cost, stats, text, sentences, origin] ←
    v.record? ["name", "type", "cost", "stats", "text", "abilities", "source"] | none
  return {
    name := ← name.required Json.text?
    type := ← type.required CardType.decode
    cost := ← cost.required Json.int32?
    stats := ← stats.orElse (Json.option? Stats.decode) none
    text := ← text.orElse Json.text? ""
    sentences := ← sentences.orElse (Json.list? Sentence.decode) []
    origin := ← origin.orElse Origin.decode .builtin }

end CardEntry
end HexDuel
