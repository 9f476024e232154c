import HexDuel.Proofs.Cells
import Mathlib.Order.Bounds.Basic
import Mathlib.Order.Lattice.Nat

/-!
Paths over the board. What the search for moves finds is at the end of a path that is short enough.
No path is shorter than the straight distance, and where nothing is in the way there is one as short
as that.
-/

set_option autoImplicit false

namespace HexDuel.Hex

/-! ### Distance -/

theorem coordinates_le_distance (a b : Hex) : (a.q - b.q).natAbs ≤ a.distance b ∧
    (a.r - b.r).natAbs ≤ a.distance b ∧ (a.s - b.s).natAbs ≤ a.distance b :=
  ⟨Nat.le_trans (Nat.le_max_left _ _) (Nat.le_max_left _ _),
    Nat.le_trans (Nat.le_max_right _ _) (Nat.le_max_left _ _), Nat.le_max_right _ _⟩

theorem distance_triangle (a b c : Hex) : a.distance c ≤ a.distance b + b.distance c := by
  obtain ⟨hq, hr, hs⟩ := coordinates_le_distance a b
  obtain ⟨hq', hr', hs'⟩ := coordinates_le_distance b c
  rw [distance, Nat.max_le, Nat.max_le]
  omega

theorem distance_of_mem_neighbors {a b : Hex} (h : b ∈ a.neighbors) : a.distance b = 1 := by
  obtain ⟨d, hd, rfl⟩ := List.mem_map.1 (List.mem_filter.1 h).1
  have hunit : ∀ d ∈ directions, max (max d.q.natAbs d.r.natAbs) d.s.natAbs = 1 := by decide
  have hback : ∀ x y : Int, x - (x + y) = -y := fun x y => by omega
  simp only [distance, step, hback, Int.natAbs_neg]
  exact hunit d hd

/-! ### Paths -/

/-- A path in so many steps, each of them to a neighbour that may be entered. -/
inductive Path (enter : Hex → Bool) (start : Hex) : Nat → Hex → Prop where
  | here : Path enter start 0 start
  | step {n : Nat} {a b : Hex} : Path enter start n a → b ∈ a.neighbors → enter b = true →
    Path enter start (n + 1) b

variable {enter : Hex → Bool} {start goal : Hex} {n : Nat}

theorem Path.distance_le (h : Path enter start n goal) : start.distance goal ≤ n := by
  induction h with
  | here => exact Nat.le_of_eq (distance_self start)
  | @step n a b _ hb _ ih =>
    calc start.distance b ≤ start.distance a + a.distance b := distance_triangle start a b
      _ = start.distance a + 1 := by rw [distance_of_mem_neighbors hb]
      _ ≤ n + 1 := Nat.succ_le_succ ih

/-- The search goes on from the ends of the paths that are as long as the rounds that are over. -/
theorem exists_path_of_mem_search {steps : Nat} {found layer : List Hex}
    (hfound : ∀ a ∈ found, ∃ k ≤ n, Path enter start k a)
    (hlayer : ∀ a ∈ layer, Path enter start n a) (hgoal : goal ∈ search enter steps found layer) :
    ∃ k ≤ n + steps, Path enter start k goal := by
  induction steps generalizing n found layer with
  | zero => exact hfound goal hgoal
  | succ steps ih =>
    have hnext : ∀ b ∈ nextLayer enter found layer, Path enter start (n + 1) b := by
      intro b hb
      obtain ⟨hborders, hopen⟩ := List.mem_filter.1 (List.mem_eraseDups.1 hb)
      obtain ⟨a, ha, hb⟩ := List.mem_flatMap.1 hborders
      exact (hlayer a ha).step hb (Bool.and_eq_true_iff.1 hopen).1
    unfold search at hgoal
    dsimp only at hgoal
    split at hgoal
    · obtain ⟨k, hk, hpath⟩ := hfound goal hgoal
      exact ⟨k, by omega, hpath⟩
    · rw [← Nat.add_assoc, Nat.add_right_comm]
      refine ih (fun b hb => ?_) hnext hgoal
      obtain hold | hnew := List.mem_append.1 hb
      · obtain ⟨k, hk, hpath⟩ := hfound b hold
        exact ⟨k, Nat.le_succ_of_le hk, hpath⟩
      · exact ⟨n + 1, Nat.le_refl _, hnext b hnew⟩

theorem mem_of_path {found : List Hex} (hstart : start ∈ found)
    (hclosed : ∀ a ∈ found, ∀ b ∈ a.neighbors, enter b = true → b ∈ found)
    (h : Path enter start n goal) : goal ∈ found := by
  induction h with
  | here => exact hstart
  | step _ hb hfree ih => exact hclosed _ ih _ hb hfree

/-- The search misses nothing: what the paths so far lead to is found, and what borders on it, too,
unless it borders on the last layer only. -/
theorem mem_search_of_path {steps k : Nat} {found layer : List Hex}
    (hfound : ∀ j ≤ n, ∀ a, Path enter start j a → a ∈ found)
    (hclosed : ∀ a ∈ found, a ∉ layer → ∀ b ∈ a.neighbors, enter b = true → b ∈ found)
    (hk : k ≤ n + steps) (hpath : Path enter start k goal) :
    goal ∈ search enter steps found layer := by
  induction steps generalizing n found layer with
  | zero => exact hfound k hk goal hpath
  | succ steps ih =>
    -- what borders on what is found is found, at the latest in the next layer
    have hnext : ∀ a ∈ found, ∀ b ∈ a.neighbors, enter b = true →
        b ∈ found ++ nextLayer enter found layer := by
      intro a ha b hb hfree
      by_cases hold : b ∈ found
      · exact List.mem_append_left _ hold
      · have hlast : a ∈ layer := by
          by_contra hlast
          exact hold (hclosed a ha hlast b hb hfree)
        refine List.mem_append_right _ (List.mem_eraseDups.2 (List.mem_filter.2 ⟨?_, ?_⟩))
        · exact List.mem_flatMap.2 ⟨a, hlast, hb⟩
        · simpa [hfree] using hold
    have hstart : start ∈ found := hfound 0 (Nat.zero_le n) start .here
    unfold search
    dsimp only
    split
    · rename_i hempty
      rw [List.isEmpty_iff.1 hempty, List.append_nil] at hnext
      exact mem_of_path hstart hnext hpath
    · refine ih (n := n + 1) (fun j hj a ha => ?_) (fun a ha hlast b hb hfree => ?_) (by omega)
      · cases ha with
        | here => exact List.mem_append_left _ hstart
        | step ha hb hfree => exact hnext _ (hfound _ (Nat.le_of_succ_le_succ hj) _ ha) _ hb hfree
      · exact hnext a ((List.mem_append.1 ha).resolve_right hlast) b hb hfree

/-- The search finds what a path of no more steps leads to. -/
theorem mem_search_iff {steps : Nat} :
    goal ∈ search enter steps [start] [start] ↔ ∃ k ≤ steps, Path enter start k goal := by
  have hhere : ∀ a ∈ [start], Path enter start 0 a := by
    intro a ha
    rw [List.mem_singleton.1 ha]
    exact .here
  constructor
  · intro hgoal
    obtain ⟨k, hk, hpath⟩ :=
      exists_path_of_mem_search (fun a ha => ⟨0, Nat.le_refl 0, hhere a ha⟩) hhere hgoal
    exact ⟨k, by omega, hpath⟩
  · rintro ⟨k, hk, hpath⟩
    refine mem_search_of_path (n := 0) (fun j hj a ha => ?_) (fun a ha hlast => absurd ha hlast)
      (by omega) hpath
    obtain rfl := Nat.le_zero.1 hj
    cases ha
    exact List.mem_singleton_self start

/-- The shortest path is as long as the search takes. -/
theorem isLeast_of_mem_search (hgoal : goal ∈ search enter (n + 1) [start] [start])
    (hmiss : goal ∉ search enter n [start] [start]) :
    IsLeast {k | Path enter start k goal} (n + 1) := by
  have hlower : ∀ k, Path enter start k goal → n + 1 ≤ k := by
    intro k hpath
    by_contra hshort
    exact hmiss (mem_search_iff.2 ⟨k, by omega, hpath⟩)
  obtain ⟨k, hk, hpath⟩ := mem_search_iff.1 hgoal
  obtain rfl : k = n + 1 := Nat.le_antisymm hk (hlower k hpath)
  exact ⟨hpath, hlower⟩

/-! ### Straight paths -/

/-- Every cell but the start has a neighbour that is closer to it. -/
theorem exists_closer_neighbor {a b : Hex} (ha : a ∈ all) (hb : b ∈ all) (hne : a ≠ b) :
    ∃ c ∈ all, b ∈ c.neighbors ∧ a.distance c + 1 = a.distance b := by
  have hcells : (all.all fun a => all.all fun b => a == b || b.neighbors.any fun c =>
      a.distance c + 1 == a.distance b && c.neighbors.contains b) = true := by
    decide +kernel
  have hsome := List.all_eq_true.1 (List.all_eq_true.1 hcells a ha) b hb
  rw [Bool.or_eq_true, List.any_eq_true] at hsome
  obtain hsame | ⟨c, hc, hcloser⟩ := hsome
  · exact absurd (eq_of_beq hsame) hne
  · obtain ⟨hdistance, hborders⟩ := Bool.and_eq_true_iff.1 hcloser
    have hlevel := level_of_mem_neighbors (mem_all_iff.1 hb).2 hc
    exact ⟨c, mem_all_iff.2 ⟨onBoard_of_mem_neighbors hc, hlevel⟩, by simpa using hborders,
      eq_of_beq hdistance⟩

/-- Where every cell may be entered, the board is crossed in a straight line. -/
theorem path_distance (henter : ∀ a, enter a = true) (hstart : start ∈ all) (hgoal : goal ∈ all) :
    Path enter start (start.distance goal) goal := by
  -- on the distance, from the goal back to the start
  induction hn : start.distance goal generalizing goal with
  | zero =>
    by_cases hne : start = goal
    · rw [← hne]
      exact .here
    · obtain ⟨c, _, _, hc⟩ := exists_closer_neighbor hstart hgoal hne
      omega
  | succ n ih =>
    have hne : start ≠ goal := by
      rintro rfl
      rw [distance_self] at hn
      cases hn
    obtain ⟨c, hc, hborders, hcloser⟩ := exists_closer_neighbor hstart hgoal hne
    exact (ih hc (by omega)).step hborders (henter goal)

end HexDuel.Hex

namespace HexDuel.Match
variable {m : Match} {start goal : Hex} {p : Piece} {hexes : List Hex}

/-- The cells that the object may walk over. -/
def enters (m : Match) (p : Piece) (h : Hex) : Bool := p.canMoveOverPieces || !m.board.occupied h

/-- A move goes along a path no longer than what the object has left to move. -/
theorem exists_path_of_mem_movementHexes (hp : m.board.pieceAt? start = some p)
    (h : m.movementHexes start = .ok hexes) (hgoal : goal ∈ hexes) :
    ∃ left k, p.movesLeft = .ok left ∧ k ≤ left.toNat ∧
      Hex.Path (m.enters p) start k goal := by
  unfold movementHexes at h
  rw [hp] at h
  dsimp only at h
  cases hleft : p.movesLeft with
  | error f => rw [hleft] at h; cases h
  | ok left =>
    rw [hleft] at h
    cases h
    obtain ⟨k, hk, hpath⟩ := Hex.mem_search_iff.1 (List.mem_filter.1 hgoal).1
    exact ⟨left, k, rfl, hk, hpath⟩

theorem movesLeft_eq {left : Int} (h : p.movesLeft = .ok left) (hpos : 0 < left) :
    ∃ speed, p.speed = .ok speed ∧ left = speed - p.movesMade := by
  unfold Piece.movesLeft at h
  split at h
  · cases h
    cases hpos
  · cases hspeed : p.speed with
    | error f => rw [hspeed] at h; cases h
    | ok speed =>
      rw [hspeed] at h
      cases hword : Outcome.int32 (speed - p.movesMade) with
      | error f => simp only [bind, Except.bind, hword] at h; cases h
      | ok word =>
        simp only [bind, Except.bind, hword] at h
        cases h
        obtain rfl := (Outcome.int32_eq_ok_iff.1 hword).1
        exact ⟨speed, rfl, by omega⟩

/-- There is a shortest path for every move, and with the moves that have been made it is no longer
than the object is fast. -/
theorem exists_shortest_of_mem_movementHexes (hp : m.board.pieceAt? start = some p)
    (h : m.movementHexes start = .ok hexes) (hgoal : goal ∈ hexes) :
    ∃ speed n, p.speed = .ok speed ∧ IsLeast {k | Hex.Path (m.enters p) start k goal} n ∧
      p.movesMade + n ≤ speed := by
  obtain ⟨left, k, hleft, hk, hpath⟩ := exists_path_of_mem_movementHexes hp h hgoal
  have hpos : 0 < k := by
    refine Nat.pos_of_ne_zero ?_
    rintro rfl
    cases hpath
    have hfree := (goal_of_mem_movementHexes h hgoal).2
    rw [Board.occupied, hp] at hfree
    cases hfree
  obtain ⟨speed, hspeed, rfl⟩ := movesLeft_eq hleft (by omega)
  refine ⟨speed, sInf {k | Hex.Path (m.enters p) start k goal}, hspeed,
    ⟨Nat.sInf_mem ⟨k, hpath⟩, fun _ => Nat.sInf_le⟩, ?_⟩
  have hle : sInf {k | Hex.Path (m.enters p) start k goal} ≤ k := Nat.sInf_le hpath
  omega

end HexDuel.Match
