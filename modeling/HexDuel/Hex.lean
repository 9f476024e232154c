import HexDuel.Json.Record
import HexDuel.Text

/-!
The board's geometry: cells in cube coordinates, their distance and neighbours, the hexagon of 37
cells, and the text form of a cell.
-/

set_option autoImplicit false

namespace HexDuel

/-- A cell in cube coordinates. On every cell that is written down the coordinates sum to zero. -/
structure Hex where
  q : Int
  r : Int
  s : Int
  deriving DecidableEq, Repr

namespace Hex

def axial (q r : Int) : Hex := ⟨q, r, -q - r⟩

theorem axial_sum (q r : Int) : (axial q r).q + (axial q r).r + (axial q r).s = 0 := by
  simp only [axial]; omega

def distance (a b : Hex) : Nat :=
  max (max (a.q - b.q).natAbs (a.r - b.r).natAbs) (a.s - b.s).natAbs

theorem distance_comm (a b : Hex) : a.distance b = b.distance a := by
  rw [distance, distance, ← Int.natAbs_neg (a.q - b.q), ← Int.natAbs_neg (a.r - b.r),
    ← Int.natAbs_neg (a.s - b.s), Int.neg_sub, Int.neg_sub, Int.neg_sub]

@[simp] theorem distance_self (a : Hex) : a.distance a = 0 := by simp [distance]

def boardRadius : Nat := 3

def onBoard (h : Hex) : Bool :=
  h.q.natAbs ≤ boardRadius && h.r.natAbs ≤ boardRadius && h.s.natAbs ≤ boardRadius

/-- The steps to the six neighbours, in the order in which neighbours are listed. -/
def directions : List Hex :=
  [⟨0, -1, 1⟩, ⟨0, 1, -1⟩, ⟨-1, 1, 0⟩, ⟨1, -1, 0⟩, ⟨-1, 0, 1⟩, ⟨1, 0, -1⟩]

def step (h d : Hex) : Hex := ⟨h.q + d.q, h.r + d.r, h.s + d.s⟩

def neighbors (h : Hex) : List Hex := (directions.map h.step).filter onBoard

theorem onBoard_of_mem_neighbors {h n : Hex} (hn : n ∈ h.neighbors) : n.onBoard = true :=
  (List.mem_filter.1 hn).2

def adjacent (a b : Hex) : Bool := a.distance b == 1

/-- Cells are ordered by `q`, then `r`, then `s`. -/
def order (a b : Hex) : Ordering :=
  (compare a.q b.q).then ((compare a.r b.r).then (compare a.s b.s))

def interval (lo hi : Int) : List Int :=
  (List.range (hi + 1 - lo).toNat).map fun (k : Nat) => lo + k

/-- Every cell of the board, by `q`, then `r`. -/
def all : List Hex :=
  (interval (-3) 3).flatMap fun q =>
    (interval (max (-3) (-q - 3)) (min 3 (3 - q))).map (axial q)

theorem length_all : all.length = 37 := by decide

/-! ### Text -/

def toText (h : Hex) : String := s!"{h.q},{h.r},{h.s}"

def inWord (i : Int) : Bool := Width.least32 ≤ i && i ≤ Width.most32

/-- A coordinate: a decimal number of 32 bits, white space around it allowed. -/
def coordinate? (cs : List Char) : Option Int := (Text.int? (Text.trim cs)).filter inWord

/-- Three coordinates between commas, summing to zero; the sum is taken from the left and must not
leave 32 bits on the way. -/
def ofText (text : String) : Option Hex :=
  match (Text.fields ',' text.toList).mapM coordinate? with
  | some [q, r, s] => if inWord (q + r) && q + r + s == 0 then some ⟨q, r, s⟩ else none
  | _ => none

def encode (h : Hex) : Json := .str h.toText

def decode (v : Json) : Option Hex := v.text?.bind ofText

end Hex
end HexDuel
