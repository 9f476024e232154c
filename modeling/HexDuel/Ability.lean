import HexDuel.Collection

/-!
Abilities installed on objects, and what they put there: passive ones, which are reapplied all the
time, triggered ones, which answer events, and activated ones, which a player invokes.
-/

set_option autoImplicit false

namespace HexDuel

/-- Counts a duration down by one turn, and tells whether it has run out. A duration that has run
out stays as it is, and without one an ability lasts. -/
def tickDuration : Option Nat → Bool × Option Nat
  | some (n + 2) => (false, some (n + 1))
  | some n => (true, some n)
  | none => (false, none)

/-- An ability that is reapplied continuously. -/
structure Passive where
  id : AbilityId
  /-- The ability that granted this one. -/
  source : Option AbilityId
  targets : Target
  effect : PassiveEffect
  duration : Option Nat
  disabled : Bool
  /-- What it was applied to last. -/
  applied : Option Collection

structure Trigger where
  id : AbilityId
  source : Option AbilityId
  spec : TriggerSpec
  actions : List Action
  overrides : Bool
  duration : Option Nat
  disabled : Bool

structure Activation where
  ability : AbilityId
  text : String
  actions : List Action

inductive StatusKind where
  | cannotAttack
  | cannotMove
  | cannotActivate
  | cannotFightBack
  | canMoveOverPieces
  | canOnlyAttack (defenders : List PieceId)
  deriving DecidableEq, Repr

structure Status where
  ability : AbilityId
  kind : StatusKind
  deriving DecidableEq, Repr

namespace Passive

/-- The ability one turn later, `none` when it has run out. -/
def tick (a : Passive) : Option Passive :=
  match tickDuration a.duration with
  | (true, _) => none
  | (false, d) => some { a with duration := d }

def setApplied (applied : Option Collection) (a : Passive) : Passive := { a with applied := applied }

def encode (a : Passive) : Json :=
  .obj [("id", .ofNat a.id), ("source", .ofOption .ofNat a.source),
    ("targets", a.targets.encode), ("effect", a.effect.encode),
    ("duration", .ofOption .ofNat a.duration), ("disabled", .bool a.disabled),
    ("current_targets", .ofOption Collection.encode a.applied)]

def decode (v : Json) : Option Passive := do
  let [id, source, targets, effect, duration, disabled, applied] ←
    v.record? ["id", "source", "targets", "effect", "duration", "disabled", "current_targets"]
    | none
  return {
    id := ← id.required Json.nat64?
    source := ← source.optional Json.nat64?
    targets := ← targets.required Target.decode
    effect := ← effect.required PassiveEffect.decode
    duration := ← duration.optional Json.nat32?
    disabled := ← disabled.required Json.bool?
    applied := ← applied.optional Collection.decode }

end Passive

namespace Trigger

def tick (t : Trigger) : Option Trigger :=
  match tickDuration t.duration with
  | (true, _) => none
  | (false, d) => some { t with duration := d }

def encode (t : Trigger) : Json :=
  .obj [("id", .ofNat t.id), ("source", .ofOption .ofNat t.source),
    ("trigger", t.spec.encode), ("actions", .ofList Action.encode t.actions),
    ("override_default", .bool t.overrides), ("duration", .ofOption .ofNat t.duration),
    ("disabled", .bool t.disabled)]

def decode (v : Json) : Option Trigger := do
  let [id, source, spec, actions, overrides, duration, disabled] ←
    v.record? ["id", "source", "trigger", "actions", "override_default", "duration", "disabled"]
    | none
  return {
    id := ← id.required Json.nat64?
    source := ← source.optional Json.nat64?
    spec := ← spec.required TriggerSpec.decode
    actions := ← actions.required (Json.list? Action.decode)
    overrides := ← overrides.required Json.bool?
    duration := ← duration.optional Json.nat32?
    disabled := ← disabled.orElse Json.bool? false }

end Trigger

namespace Activation

def encode (a : Activation) : Json :=
  .obj [("aid", .ofNat a.ability), ("text", .str a.text),
    ("actions", .ofList Action.encode a.actions)]

def decode (v : Json) : Option Activation := do
  let [ability, text, actions] ← v.record? ["aid", "text", "actions"] | none
  return {
    ability := ← ability.required Json.nat64?
    text := ← text.required Json.text?
    actions := ← actions.required (Json.list? Action.decode) }

end Activation

namespace StatusKind

/-- The same status, whatever defenders it names. -/
def same : StatusKind → StatusKind → Bool
  | .canOnlyAttack _, .canOnlyAttack _ => true
  | a, b => a == b

def encode : StatusKind → Json
  | .cannotAttack => .str "cannotAttack"
  | .cannotMove => .str "cannotMove"
  | .cannotActivate => .str "cannotActivate"
  | .cannotFightBack => .str "cannotFightBack"
  | .canMoveOverPieces => .str "canMoveOverObjects"
  | .canOnlyAttack defenders => .tagged "canOnlyAttack" (.ofList .ofNat defenders)

def decode (v : Json) : Option StatusKind := do
  let (name, data) ← v.variant?
  match name with
  | "cannotAttack" => bare data .cannotAttack
  | "cannotMove" => bare data .cannotMove
  | "cannotActivate" => bare data .cannotActivate
  | "cannotFightBack" => bare data .cannotFightBack
  | "canMoveOverObjects" => bare data .canMoveOverPieces
  | "canOnlyAttack" => return .canOnlyAttack (← (← data).list? Json.nat64?)
  | _ => none

end StatusKind

namespace Status

def encode (s : Status) : Json :=
  .obj [("aid", .ofNat s.ability), ("kind", s.kind.encode)]

def decode (v : Json) : Option Status := do
  let [ability, kind] ← v.record? ["aid", "kind"] | none
  return ⟨← ability.required Json.nat64?, ← kind.required StatusKind.decode⟩

end Status
end HexDuel
