import HexDuel.Json.Value
import HexDuel.Width

/-!
The shapes that data takes in JSON: numbers of a width, lists, records and tagged variants.

A record is an object with a member for each field, in any order and among unknown ones, or an array
with the fields in their declared order. A variant without data is its name; one with data is an
object whose only member is named for it.
-/

set_option autoImplicit false

namespace HexDuel.Json

/-! ### Plain values -/

def within (lo hi : Int) : Json → Option Int
  | .int i => if lo ≤ i ∧ i ≤ hi then some i else none
  | _ => none

theorem within_int {lo hi i : Int} (h₁ : lo ≤ i) (h₂ : i ≤ hi) :
    within lo hi (.int i) = some i := by simp [within, h₁, h₂]

def int32? : Json → Option Int := within Width.least32 Width.most32

def int64? : Json → Option Int := within Width.least64 Width.most64

def natBelow? (bound : Nat) : Json → Option Nat
  | .int (.ofNat n) => if n < bound then some n else none
  | _ => none

theorem natBelow?_int {bound n : Nat} (h : n < bound) : natBelow? bound (.int n) = some n := by
  simp [natBelow?, h]

def nat32? : Json → Option Nat := natBelow? Width.end32

def nat64? : Json → Option Nat := natBelow? Width.end64

def bool? : Json → Option Bool
  | .bool b => some b
  | _ => none

def text? : Json → Option String
  | .str s => some s
  | _ => none

def ofNat (n : Nat) : Json := .int n

theorem nat64?_ofNat {n : Nat} (h : n < Width.end64) : nat64? (ofNat n) = some n :=
  natBelow?_int h

def ofOption {α : Type} (encode : α → Json) : Option α → Json
  | none => .null
  | some a => encode a

def option? {α : Type} (decode : Json → Option α) : Json → Option (Option α)
  | .null => some none
  | v => (decode v).map some

def ofList {α : Type} (encode : α → Json) (xs : List α) : Json := .arr (xs.map encode)

def list? {α : Type} (decode : Json → Option α) : Json → Option (List α)
  | .arr items => items.mapM decode
  | .row items => items.mapM decode
  | _ => none

/-! ### Records -/

/-- What a record holds for a field. -/
inductive Slot where
  | given (v : Json)
  /-- The object has no such member. -/
  | missing
  /-- The array ends before the field. -/
  | cut

namespace Slot

def required {α : Type} (decode : Json → Option α) : Slot → Option α
  | .given v => decode v
  | _ => none

/-- A field that may be left out of an object, though not of an array. -/
def optional {α : Type} (decode : Json → Option α) : Slot → Option (Option α)
  | .given v => option? decode v
  | .missing => some none
  | .cut => none

/-- A field that stands for a value when it is left out. -/
def orElse {α : Type} (decode : Json → Option α) (absent : α) : Slot → Option α
  | .given v => decode v
  | _ => some absent

end Slot

def slotOf (members : List (String × Json)) (name : String) : Slot :=
  match members.lookup name with
  | some v => .given v
  | none => .missing

/-- A field given twice is refused. -/
def slotsOfMembers (names : List String) (members : List (String × Json)) : Option (List Slot) :=
  if names.any fun n => 1 < members.countP (·.1 == n) then none
  else some (names.map (slotOf members))

/-- An item too many is refused. -/
def slotsOfItems (names : List String) (items : List Json) : Option (List Slot) :=
  if names.length < items.length then none
  else some (items.map .given ++ List.replicate (names.length - items.length) .cut)

def record? (names : List String) : Json → Option (List Slot)
  | .obj members => slotsOfMembers names members
  | .arr items => slotsOfItems names items
  | .row items => slotsOfItems names items
  | _ => none

def fields? (names : List String) : Json → Option (List Slot)
  | .obj members => slotsOfMembers names members
  | .arr items => slotsOfItems names items
  | _ => none

/-! ### Variants -/

def variant? : Json → Option (String × Option Json)
  | .str s => some (s, none)
  | .obj [(k, v)] => some (k, some v)
  | _ => none

def tagged (name : String) (data : Json) : Json := .obj [(name, data)]

@[simp] theorem variant?_str (s : String) : variant? (.str s) = some (s, none) := rfl

@[simp] theorem variant?_tagged (name : String) (data : Json) :
    variant? (tagged name data) = some (name, some data) := rfl

/-- The name of a variant without data; `null` may stand in the place of the data. -/
def unit? (v : Json) : Option String :=
  match variant? v with
  | some (name, none) => some name
  | some (name, some .null) => some name
  | _ => none

@[simp] theorem unit?_str (s : String) : unit? (.str s) = some s := rfl

def named? {α : Type} (name : α → String) (all : List α) (v : Json) : Option α :=
  match unit? v with
  | some s => all.find? (name · == s)
  | none => none

def noData : Option Json → Bool
  | none => true
  | some .null => true
  | _ => false

end HexDuel.Json
