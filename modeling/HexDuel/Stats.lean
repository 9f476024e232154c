import HexDuel.Fault

/-!
Card types, the numbers an object carries, and the functions that adjust them.
-/

set_option autoImplicit false

namespace HexDuel

inductive CardType where
  | robot
  | event
  | building
  | core
  deriving DecidableEq, Repr

namespace CardType

def all : List CardType := [.robot, .event, .building, .core]

def name : CardType → String
  | .robot => "robot"
  | .event => "event"
  | .building => "structure"
  | .core => "core"

def isPiece : CardType → Bool
  | .event => false
  | _ => true

def encode (t : CardType) : Json := .str t.name

def decode : Json → Option CardType := Json.named? name all

@[simp] theorem decode_encode (t : CardType) : decode t.encode = some t := by cases t <;> decide

end CardType

inductive TypeQuery where
  | any
  | only (type : CardType)
  | oneOf (types : List CardType)
  deriving DecidableEq, Repr

namespace TypeQuery

def admits : TypeQuery → CardType → Bool
  | .any, _ => true
  | .only t, u => t == u
  | .oneOf ts, u => ts.contains u

@[simp] theorem admits_any (t : CardType) : any.admits t = true := rfl

def encode : TypeQuery → Json
  | .any => .str "any"
  | .only t => .tagged "only" t.encode
  | .oneOf ts => .tagged "oneOf" (.ofList CardType.encode ts)

def decode (v : Json) : Option TypeQuery := do
  let (name, data) ← v.variant?
  match name with
  | "any" => if Json.noData data then some .any else none
  | "only" => return .only (← CardType.decode (← data))
  | "oneOf" => return .oneOf (← (← data).list? CardType.decode)
  | _ => none

end TypeQuery

inductive Origin where
  | builtin
  | user
  | generated
  deriving DecidableEq, Repr

namespace Origin

def all : List Origin := [.builtin, .user, .generated]

def name : Origin → String
  | .builtin => "builtin"
  | .user => "user"
  | .generated => "generated"

def encode (o : Origin) : Json := .str o.name

def decode : Json → Option Origin := Json.named? name all

@[simp] theorem decode_encode (o : Origin) : decode o.encode = some o := by cases o <;> decide

end Origin

inductive Attribute where
  | attack
  | health
  | speed
  deriving DecidableEq, Repr

namespace Attribute

def all : List Attribute := [.attack, .health, .speed]

def name : Attribute → String
  | .attack => "attack"
  | .health => "health"
  | .speed => "speed"

def encode (a : Attribute) : Json := .str a.name

def decode : Json → Option Attribute := Json.named? name all

@[simp] theorem decode_encode (a : Attribute) : decode a.encode = some a := by cases a <;> decide

end Attribute

/-- Which numbers a modification touches. The cost is one of cards in hand only. -/
inductive Scope where
  | attack
  | health
  | speed
  | cost
  | allAttributes
  deriving DecidableEq, Repr

namespace Scope

def all : List Scope := [.attack, .health, .speed, .cost, .allAttributes]

def name : Scope → String
  | .attack => "attack"
  | .health => "health"
  | .speed => "speed"
  | .cost => "cost"
  | .allAttributes => "allAttributes"

def attributes : Scope → List Attribute
  | .attack => [.attack]
  | .health => [.health]
  | .speed => [.speed]
  | .cost => []
  | .allAttributes => Attribute.all

theorem nodup_attributes (s : Scope) : s.attributes.Nodup := by cases s <;> decide

def encode (s : Scope) : Json := .str s.name

def decode : Json → Option Scope := Json.named? name all

@[simp] theorem decode_encode (s : Scope) : decode s.encode = some s := by cases s <;> decide

end Scope

/-- Base numbers. Structures and cores have neither attack nor speed. -/
structure Stats where
  attack : Option Int
  health : Int
  speed : Option Int
  deriving DecidableEq, Repr

namespace Stats

/-- The numbers of what neither strikes nor moves. -/
def still (health : Int) : Stats := ⟨none, health, none⟩

def get (s : Stats) : Attribute → Option Int
  | .attack => s.attack
  | .health => some s.health
  | .speed => s.speed

/-- An attribute that is absent stays absent. -/
def set (s : Stats) (a : Attribute) (value : Int) : Stats :=
  match a with
  | .attack => { s with attack := s.attack.map fun _ => value }
  | .health => { s with health := value }
  | .speed => { s with speed := s.speed.map fun _ => value }

theorem get_set_self (s : Stats) (a : Attribute) (value : Int) :
    (s.set a value).get a = (s.get a).map fun _ => value := by cases a <;> rfl

theorem get_set_of_ne (s : Stats) {a b : Attribute} (h : a ≠ b) (value : Int) :
    (s.set a value).get b = s.get b := by
  cases a <;> cases b <;> first | rfl | exact absurd rfl h

def encode (s : Stats) : Json :=
  .obj [("attack", .ofOption .int s.attack), ("health", .int s.health),
    ("speed", .ofOption .int s.speed)]

def decode (v : Json) : Option Stats := do
  let [attack, health, speed] ← v.record? ["attack", "health", "speed"] | none
  return {
    attack := ← attack.orElse (Json.option? Json.int32?) none
    health := ← health.required Json.int32?
    speed := ← speed.orElse (Json.option? Json.int32?) none }

end Stats

/-- A change of a number, once the number it works with is known. -/
inductive Adjustment where
  | add (n : Int)
  | subtract (n : Int)
  | multiply (n : Int)
  | divide (n : Int)
  | set (n : Int)
  deriving DecidableEq, Repr

namespace Adjustment

/-- The nearest number of 32 bits. -/
def saturate (i : Int) : Int := max Width.least32 (min Width.most32 i)

/-- The change before it is cut off at zero. Division is Euclidean, and by zero it changes
nothing; the one quotient that needs a 33rd bit is refused. -/
def raw : Adjustment → Int → Outcome Int
  | .add n, i => .ok (saturate (i + n))
  | .subtract n, i => .ok (saturate (i - n))
  | .multiply n, i => .ok (saturate (i * n))
  | .divide n, i => if n = 0 then .ok i else Outcome.int32 (i / n)
  | .set n, _ => .ok n

/-- No adjusted number is below zero. -/
def apply (a : Adjustment) (i : Int) : Outcome Int := (a.raw i).map (max 0)

theorem nonneg_of_apply {a : Adjustment} {i j : Int} (h : a.apply i = .ok j) : 0 ≤ j := by
  unfold apply at h
  cases hr : a.raw i with
  | error f => rw [hr] at h; cases h
  | ok k =>
    rw [hr] at h
    cases h
    exact Int.le_max_left 0 k

/-- Adjustments work one after the other. -/
def applyAll (adjustments : List Adjustment) (i : Int) : Outcome Int :=
  adjustments.foldlM (fun j a => a.apply j) i

@[simp] theorem applyAll_nil (i : Int) : applyAll [] i = .ok i := rfl

def encode : Adjustment → Json
  | .add n => .tagged "add" (.int n)
  | .subtract n => .tagged "subtract" (.int n)
  | .multiply n => .tagged "multiply" (.int n)
  | .divide n => .tagged "divide" (.int n)
  | .set n => .tagged "set" (.int n)

def decode (v : Json) : Option Adjustment := do
  let (name, data) ← v.variant?
  let n ← (← data).int32?
  match name with
  | "add" => some (.add n)
  | "subtract" => some (.subtract n)
  | "multiply" => some (.multiply n)
  | "divide" => some (.divide n)
  | "set" => some (.set n)
  | _ => none

end Adjustment

inductive Comparison where
  | equal
  | notEqual
  | lessThan
  | lessThanOrEqual
  | greaterThan
  | greaterThanOrEqual
  deriving DecidableEq, Repr

namespace Comparison

def all : List Comparison :=
  [.equal, .notEqual, .lessThan, .lessThanOrEqual, .greaterThan, .greaterThanOrEqual]

def name : Comparison → String
  | .equal => "equal"
  | .notEqual => "notEqual"
  | .lessThan => "lessThan"
  | .lessThanOrEqual => "lessThanOrEqual"
  | .greaterThan => "greaterThan"
  | .greaterThanOrEqual => "greaterThanOrEqual"

def holds : Comparison → Int → Int → Bool
  | .equal, a, b => a == b
  | .notEqual, a, b => a != b
  | .lessThan, a, b => a < b
  | .lessThanOrEqual, a, b => a ≤ b
  | .greaterThan, a, b => b < a
  | .greaterThanOrEqual, a, b => b ≤ a

def encode (c : Comparison) : Json := .str c.name

def decode : Json → Option Comparison := Json.named? name all

@[simp] theorem decode_encode (c : Comparison) : decode c.encode = some c := by cases c <;> decide

end Comparison
end HexDuel
