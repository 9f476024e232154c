import HexDuel.Phrase.Target

/-!
The part of the card language that acts: actions, what continuous abilities do, triggers, and the
sentences that a card's text is compiled to.
-/

set_option autoImplicit false

namespace HexDuel

inductive EventType where
  | afterAttack
  | afterCardPlay
  | afterDamageReceived
  | afterDestroyed
  | afterMove
  | afterPlayed
  | beginningOfTurn
  | endOfTurn
  deriving DecidableEq, Repr

namespace EventType

def all : List EventType :=
  [.afterAttack, .afterCardPlay, .afterDamageReceived, .afterDestroyed, .afterMove, .afterPlayed,
    .beginningOfTurn, .endOfTurn]

def name : EventType → String
  | .afterAttack => "afterAttack"
  | .afterCardPlay => "afterCardPlay"
  | .afterDamageReceived => "afterDamageReceived"
  | .afterDestroyed => "afterDestroyed"
  | .afterMove => "afterMove"
  | .afterPlayed => "afterPlayed"
  | .beginningOfTurn => "beginningOfTurn"
  | .endOfTurn => "endOfTurn"

def encode (e : EventType) : Json := .str e.name

def decode : Json → Option EventType := Json.named? name all

@[simp] theorem decode_encode (e : EventType) : decode e.encode = some e := by cases e <;> decide

end EventType

inductive Cause where
  | combat
  | anyEvent
  deriving DecidableEq, Repr

namespace Cause

def all : List Cause := [.combat, .anyEvent]

def name : Cause → String
  | .combat => "combat"
  | .anyEvent => "anyEvent"

def encode (c : Cause) : Json := .str c.name

def decode : Json → Option Cause := Json.named? name all

@[simp] theorem decode_encode (c : Cause) : decode c.encode = some c := by cases c <;> decide

end Cause

inductive StatusPhrase where
  | cannotAttack
  | cannotMove
  | cannotActivate
  | cannotFightBack
  | canMoveOverPieces
  | canOnlyAttack (target : Target)

/-- Which events a trigger listens to. -/
structure TriggerSpec where
  event : EventType
  /-- The objects, or the players, whose events are heard. -/
  targets : Target
  cause : Cause
  /-- The type of the defender or of the card played. -/
  types : Option TypeQuery

mutual

inductive Action where
  | moveAgain (target : Target)
  | moveAndAttackAgain (target : Target)
  | dealDamage (target : Target) (amount : Number)
  | destroy (target : Target)
  | discard (target : Target)
  | draw (player : Target) (count : Number)
  | endTurn
  | giveAbility (target : Target) (ability : Sentence) (duration : Option Nat)
  | modifyAttribute (target : Target) (scope : Scope) (modifier : Modifier)
  | modifyEnergy (player : Target) (modifier : Modifier)
  | restoreHealth (target : Target) (amount : Option Number)
  | setAttribute (target : Target) (scope : Scope) (value : Number)
  | swapAttributes (target : Target) (first second : Attribute)
  | takeControl (player target : Target)
  | returnToHand (target : Target)
  | movePiece (target destination : Target)
  | spawnPiece (card hex owner : Target)
  | ifHolds (condition : StateCondition) (actions : List Action)

inductive Sentence where
  | actions (list : List Action)
  | setAbility (phrase : PassivePhrase)
  | setTrigger (phrase : TriggerPhrase)

inductive PassiveEffect where
  | adjust (scope : Scope) (modifier : Modifier)
  | status (phrase : StatusPhrase)
  | grant (ability : Sentence)
  /-- Gives each target an ability that its player can activate. -/
  | activated (text : String) (actions : List Action)

structure PassivePhrase where
  targets : Target
  effect : PassiveEffect
  duration : Option Nat

structure TriggerPhrase where
  trigger : TriggerSpec
  actions : List Action
  overrides : Bool
  duration : Option Nat

end

instance : Inhabited Action := ⟨.endTurn⟩

instance : Inhabited Sentence := ⟨.actions []⟩

/-- Sentences that act once and leave nothing behind. -/
def Sentence.isActions : Sentence → Bool
  | .actions _ => true
  | _ => false

/-! ### Writing -/

def StatusPhrase.encode : StatusPhrase → Json
  | .cannotAttack => .str "cannotAttack"
  | .cannotMove => .str "cannotMove"
  | .cannotActivate => .str "cannotActivate"
  | .cannotFightBack => .str "cannotFightBack"
  | .canMoveOverPieces => .str "canMoveOverObjects"
  | .canOnlyAttack target => .tagged "canOnlyAttack" target.encode

def TriggerSpec.encode (t : TriggerSpec) : Json :=
  .obj [("event", t.event.encode), ("targets", t.targets.encode), ("cause", t.cause.encode),
    ("cardType", .ofOption TypeQuery.encode t.types)]

mutual

def Action.encode : Action → Json
  | .moveAgain target => .tagged "canMoveAgain" target.encode
  | .moveAndAttackAgain target => .tagged "canMoveAndAttackAgain" target.encode
  | .dealDamage target amount =>
    .tagged "dealDamage" (.obj [("target", target.encode), ("amount", amount.encode)])
  | .destroy target => .tagged "destroy" target.encode
  | .discard target => .tagged "discard" target.encode
  | .draw player count =>
    .tagged "draw" (.obj [("player", player.encode), ("count", count.encode)])
  | .endTurn => .str "endTurn"
  | .giveAbility target ability duration =>
    .tagged "giveAbility" (.obj [("target", target.encode), ("ability", ability.encode),
      ("duration", .ofOption .ofNat duration)])
  | .modifyAttribute target scope modifier =>
    .tagged "modifyAttribute" (.obj [("target", target.encode), ("attribute", scope.encode),
      ("modifier", modifier.encode)])
  | .modifyEnergy player modifier =>
    .tagged "modifyEnergy" (.obj [("player", player.encode), ("modifier", modifier.encode)])
  | .restoreHealth target amount =>
    .tagged "restoreHealth"
      (.obj [("target", target.encode), ("amount", .ofOption Number.encode amount)])
  | .setAttribute target scope value =>
    .tagged "setAttribute" (.obj [("target", target.encode), ("attribute", scope.encode),
      ("value", value.encode)])
  | .swapAttributes target first second =>
    .tagged "swapAttributes" (.obj [("target", target.encode), ("first", first.encode),
      ("second", second.encode)])
  | .takeControl player target =>
    .tagged "takeControl" (.obj [("player", player.encode), ("target", target.encode)])
  | .returnToHand target => .tagged "returnToHand" target.encode
  | .movePiece target destination =>
    .tagged "moveObject" (.obj [("target", target.encode), ("destination", destination.encode)])
  | .spawnPiece card hex owner =>
    .tagged "spawnObject" (.obj [("card", card.encode), ("hex", hex.encode),
      ("owner", owner.encode)])
  | .ifHolds condition actions =>
    .tagged "if" (.obj [("condition", condition.encode), ("then", .arr (encodeActions actions))])

def Sentence.encode : Sentence → Json
  | .actions list => .tagged "actions" (.arr (encodeActions list))
  | .setAbility phrase => .tagged "setAbility" phrase.encode
  | .setTrigger phrase => .tagged "setTrigger" phrase.encode

def PassiveEffect.encode : PassiveEffect → Json
  | .adjust scope modifier =>
    .tagged "attributeAdjustment"
      (.obj [("attribute", scope.encode), ("modifier", modifier.encode)])
  | .status phrase => .tagged "applyEffect" phrase.encode
  | .grant ability => .tagged "giveAbility" ability.encode
  | .activated text actions =>
    .tagged "activated" (.obj [("text", .str text), ("actions", .arr (encodeActions actions))])

def PassivePhrase.encode : PassivePhrase → Json
  | ⟨targets, effect, duration⟩ =>
    .obj [("targets", targets.encode), ("effect", effect.encode),
      ("duration", .ofOption .ofNat duration)]

def TriggerPhrase.encode : TriggerPhrase → Json
  | ⟨trigger, actions, overrides, duration⟩ =>
    .obj [("trigger", trigger.encode), ("actions", .arr (encodeActions actions)),
      ("override", .bool overrides), ("duration", .ofOption .ofNat duration)]

def encodeActions : List Action → List Json
  | [] => []
  | a :: as => a.encode :: encodeActions as

end

theorem encodeActions_eq_map (as : List Action) : encodeActions as = as.map Action.encode := by
  induction as with
  | nil => rfl
  | cons a as ih => simp [encodeActions, ih]

/-! ### Reading -/

def StatusPhrase.decode (v : Json) : Option StatusPhrase := do
  let (name, data) ← v.variant?
  match name with
  | "cannotAttack" => bare data .cannotAttack
  | "cannotMove" => bare data .cannotMove
  | "cannotActivate" => bare data .cannotActivate
  | "cannotFightBack" => bare data .cannotFightBack
  | "canMoveOverObjects" => bare data .canMoveOverPieces
  | "canOnlyAttack" => return .canOnlyAttack (← Target.decode (← data))
  | _ => none

def TriggerSpec.decode (v : Json) : Option TriggerSpec := do
  let [event, targets, cause, types] ← v.record? ["event", "targets", "cause", "cardType"] | none
  return {
    event := ← event.required EventType.decode
    targets := ← targets.required Target.decode
    cause := ← cause.orElse Cause.decode .anyEvent
    types := ← types.orElse (Json.option? TypeQuery.decode) none }

mutual

def Action.decodeWithin : Nat → Json → Option Action
  | 0, _ => none
  | depth + 1, v => do
    let (name, data) ← v.variant?
    match name with
    | "canMoveAgain" => return .moveAgain (← Target.decode (← data))
    | "canMoveAndAttackAgain" => return .moveAndAttackAgain (← Target.decode (← data))
    | "dealDamage" => do
      let [target, amount] ← (← data).fields? ["target", "amount"] | none
      return .dealDamage (← target.required Target.decode) (← amount.required Number.decode)
    | "destroy" => return .destroy (← Target.decode (← data))
    | "discard" => return .discard (← Target.decode (← data))
    | "draw" => do
      let [player, count] ← (← data).fields? ["player", "count"] | none
      return .draw (← player.required Target.decode) (← count.required Number.decode)
    | "endTurn" => bare data .endTurn
    | "giveAbility" => do
      let [target, ability, duration] ← (← data).fields? ["target", "ability", "duration"] | none
      return .giveAbility (← target.required Target.decode)
        (← ability.required (Sentence.decodeWithin depth))
        (← duration.orElse (Json.option? Json.nat32?) none)
    | "modifyAttribute" => do
      let [target, scope, modifier] ← (← data).fields? ["target", "attribute", "modifier"] | none
      return .modifyAttribute (← target.required Target.decode) (← scope.required Scope.decode)
        (← modifier.required Modifier.decode)
    | "modifyEnergy" => do
      let [player, modifier] ← (← data).fields? ["player", "modifier"] | none
      return .modifyEnergy (← player.required Target.decode) (← modifier.required Modifier.decode)
    | "restoreHealth" => do
      let [target, amount] ← (← data).fields? ["target", "amount"] | none
      return .restoreHealth (← target.required Target.decode)
        (← amount.orElse (Json.option? Number.decode) none)
    | "setAttribute" => do
      let [target, scope, value] ← (← data).fields? ["target", "attribute", "value"] | none
      return .setAttribute (← target.required Target.decode) (← scope.required Scope.decode)
        (← value.required Number.decode)
    | "swapAttributes" => do
      let [target, first, second] ← (← data).fields? ["target", "first", "second"] | none
      return .swapAttributes (← target.required Target.decode) (← first.required Attribute.decode)
        (← second.required Attribute.decode)
    | "takeControl" => do
      let [player, target] ← (← data).fields? ["player", "target"] | none
      return .takeControl (← player.required Target.decode) (← target.required Target.decode)
    | "returnToHand" => return .returnToHand (← Target.decode (← data))
    | "moveObject" => do
      let [target, destination] ← (← data).fields? ["target", "destination"] | none
      return .movePiece (← target.required Target.decode) (← destination.required Target.decode)
    | "spawnObject" => do
      let [card, hex, owner] ← (← data).fields? ["card", "hex", "owner"] | none
      return .spawnPiece (← card.required Target.decode) (← hex.required Target.decode)
        (← owner.required Target.decode)
    | "if" => do
      let [condition, actions] ← (← data).fields? ["condition", "then"] | none
      return .ifHolds (← condition.required StateCondition.decode)
        (← actions.required (Json.list? (Action.decodeWithin depth)))
    | _ => none

def Sentence.decodeWithin : Nat → Json → Option Sentence
  | 0, _ => none
  | depth + 1, v => do
    let (name, data) ← v.variant?
    match name with
    | "actions" => return .actions (← (← data).list? (Action.decodeWithin depth))
    | "setAbility" => return .setAbility (← PassivePhrase.decodeWithin depth (← data))
    | "setTrigger" => return .setTrigger (← TriggerPhrase.decodeWithin depth (← data))
    | _ => none

def PassiveEffect.decodeWithin : Nat → Json → Option PassiveEffect
  | 0, _ => none
  | depth + 1, v => do
    let (name, data) ← v.variant?
    match name with
    | "attributeAdjustment" => do
      let [scope, modifier] ← (← data).fields? ["attribute", "modifier"] | none
      return .adjust (← scope.required Scope.decode) (← modifier.required Modifier.decode)
    | "applyEffect" => return .status (← StatusPhrase.decode (← data))
    | "giveAbility" => return .grant (← Sentence.decodeWithin depth (← data))
    | "activated" => do
      let [text, actions] ← (← data).fields? ["text", "actions"] | none
      return .activated (← text.required Json.text?)
        (← actions.required (Json.list? (Action.decodeWithin depth)))
    | _ => none

def PassivePhrase.decodeWithin : Nat → Json → Option PassivePhrase
  | 0, _ => none
  | depth + 1, v => do
    let [targets, effect, duration] ← v.record? ["targets", "effect", "duration"] | none
    return {
      targets := ← targets.required Target.decode
      effect := ← effect.required (PassiveEffect.decodeWithin depth)
      duration := ← duration.orElse (Json.option? Json.nat32?) none }

def TriggerPhrase.decodeWithin : Nat → Json → Option TriggerPhrase
  | 0, _ => none
  | depth + 1, v => do
    let [trigger, actions, overrides, duration] ←
      v.record? ["trigger", "actions", "override", "duration"] | none
    return {
      trigger := ← trigger.required TriggerSpec.decode
      actions := ← actions.required (Json.list? (Action.decodeWithin depth))
      overrides := ← overrides.orElse Json.bool? false
      duration := ← duration.orElse (Json.option? Json.nat32?) none }

end

def Action.decode (v : Json) : Option Action := Action.decodeWithin (v.height + 1) v

def Sentence.decode (v : Json) : Option Sentence := Sentence.decodeWithin (v.height + 1) v

def PassiveEffect.decode (v : Json) : Option PassiveEffect :=
  PassiveEffect.decodeWithin (v.height + 1) v

def PassivePhrase.decode (v : Json) : Option PassivePhrase :=
  PassivePhrase.decodeWithin (v.height + 1) v

def TriggerPhrase.decode (v : Json) : Option TriggerPhrase :=
  TriggerPhrase.decodeWithin (v.height + 1) v

end HexDuel
