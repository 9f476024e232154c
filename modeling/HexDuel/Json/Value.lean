/-!
JSON values with ordered members.

A text can be grammatical and still hold parts that no decoder may use: a lone surrogate, a number
too large for a double, a container nested too deep. Such a part is kept as `unreadable`, because a
field that nobody asks for may hold it.
-/

set_option autoImplicit false

namespace HexDuel

inductive Json where
  | null
  | bool (b : Bool)
  | int (i : Int)
  /-- A number that is not a 64-bit integer. No decoder accepts one, so its digits are not kept. -/
  | real
  | str (s : String)
  | arr (items : List Json)
  /-- An array that stands as a variant's data in a larger value. It cannot give fields that have
  names. -/
  | row (items : List Json)
  | obj (members : List (String × Json))
  | unreadable
  deriving Inhabited

namespace Json

mutual
/-- How many containers stand inside one another. -/
def height : Json → Nat
  | .arr items => heightItems items + 1
  | .row items => heightItems items + 1
  | .obj members => heightMembers members + 1
  | _ => 0

def heightItems : List Json → Nat
  | [] => 0
  | v :: vs => max v.height (heightItems vs)

def heightMembers : List (String × Json) → Nat
  | [] => 0
  | (_, v) :: ms => max v.height (heightMembers ms)
end

theorem height_le_heightItems {v : Json} {vs : List Json} (h : v ∈ vs) :
    v.height ≤ heightItems vs := by
  induction vs with
  | nil => cases h
  | cons w vs ih =>
    rcases List.mem_cons.1 h with rfl | h
    · exact Nat.le_max_left _ _
    · exact Nat.le_trans (ih h) (Nat.le_max_right _ _)

mutual
def isClean : Json → Bool
  | .unreadable => false
  | .arr items => cleanItems items
  | .row items => cleanItems items
  | .obj members => cleanMembers members
  | _ => true

def cleanItems : List Json → Bool
  | [] => true
  | v :: vs => v.isClean && cleanItems vs

def cleanMembers : List (String × Json) → Bool
  | [] => true
  | (_, v) :: ms => v.isClean && cleanMembers ms
end

/-- An array as the data of a variant. -/
def asData : Json → Json
  | .arr items => .row items
  | v => v

mutual
/-- The value as a part of a larger one: of several members of one name the last is kept, and an
array in the only member of an object becomes a row. -/
def settled : Json → Json
  | .arr items => .arr (settledItems items)
  | .row items => .row (settledItems items)
  | .obj members =>
    match settledMembers members with
    | [(k, v)] => .obj [(k, v.asData)]
    | ms => .obj ms
  | v => v

def settledItems : List Json → List Json
  | [] => []
  | v :: vs => v.settled :: settledItems vs

def settledMembers : List (String × Json) → List (String × Json)
  | [] => []
  | (k, v) :: ms =>
    let rest := settledMembers ms
    if rest.any (·.1 == k) then rest else (k, v.settled) :: rest
end

/-- The member of that name, `null` when there is none. -/
def field (name : String) : Json → Json
  | .obj members => (members.lookup name).getD .null
  | _ => .null

@[simp] theorem field_null (name : String) : Json.null.field name = .null := rfl

mutual
/-- A merge patch: objects merge member by member, `null` drops a member, and anything else takes
the place of what was there. -/
def mergePatch : Json → Json → Json
  | base, .obj changes =>
    match base with
    | .obj members => .obj (mergeMembers members changes)
    | _ => .obj (mergeMembers [] changes)
  | _, patch => patch

def mergeMembers : List (String × Json) → List (String × Json) → List (String × Json)
  | members, [] => members
  | members, (k, change) :: rest =>
    match change with
    | .null => mergeMembers (members.filter (·.1 != k)) rest
    | change =>
      let merged := mergePatch ((members.lookup k).getD .null) change
      let members :=
        if members.any (·.1 == k) then
          members.map fun m => if m.1 == k then (k, merged) else m
        else members ++ [(k, merged)]
      mergeMembers members rest
end

end Json
end HexDuel
