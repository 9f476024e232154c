import HexDuel.Hex

/-!
The two players and what there is one of for each.
-/

set_option autoImplicit false

namespace HexDuel

/-- Blue always moves first. -/
inductive Color where
  | blue
  | orange
  deriving DecidableEq, Repr

namespace Color

def all : List Color := [.blue, .orange]

theorem mem_all (c : Color) : c ∈ all := by cases c <;> simp [all]

def opponent : Color → Color
  | .blue => .orange
  | .orange => .blue

@[simp] theorem opponent_opponent (c : Color) : c.opponent.opponent = c := by cases c <;> rfl

theorem opponent_ne (c : Color) : c.opponent ≠ c := by cases c <;> simp [opponent]

def name : Color → String
  | .blue => "blue"
  | .orange => "orange"

def encode (c : Color) : Json := .str c.name

def decode : Json → Option Color := Json.named? name all

@[simp] theorem decode_encode (c : Color) : decode c.encode = some c := by cases c <;> decide

def coreHex : Color → Hex
  | .blue => .axial (-3) 0
  | .orange => .axial 3 0

def placements : Color → List Hex
  | .blue => [.axial (-3) 1, .axial (-2) (-1), .axial (-2) 0]
  | .orange => [.axial 3 (-1), .axial 2 1, .axial 2 0]

end Color

structure PerSide (α : Type) where
  blue : α
  orange : α
  deriving DecidableEq, Repr

namespace PerSide
variable {α : Type}

def get (p : PerSide α) : Color → α
  | .blue => p.blue
  | .orange => p.orange

def modify (p : PerSide α) (c : Color) (f : α → α) : PerSide α :=
  match c with
  | .blue => { p with blue := f p.blue }
  | .orange => { p with orange := f p.orange }

@[simp] theorem get_modify_self (p : PerSide α) (c : Color) (f : α → α) :
    (p.modify c f).get c = f (p.get c) := by cases c <;> rfl

theorem get_modify_of_ne (p : PerSide α) {c d : Color} (h : c ≠ d) (f : α → α) :
    (p.modify c f).get d = p.get d := by
  cases c <;> cases d <;> first | rfl | exact absurd rfl h

def encode (value : α → Json) (p : PerSide α) : Json :=
  .obj [("blue", value p.blue), ("orange", value p.orange)]

def decode (value : Json → Option α) (v : Json) : Option (PerSide α) := do
  let [blue, orange] ← v.record? ["blue", "orange"] | none
  return ⟨← blue.required value, ← orange.required value⟩

end PerSide
end HexDuel
