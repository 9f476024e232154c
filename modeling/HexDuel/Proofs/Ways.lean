import HexDuel.Proofs.Paths
import Mathlib.Data.List.Chain

/-!
Ways over the board, spelled out cell by cell. The search for moves finds the ends of all ways that
are short enough, each of them once, and what is near before what is far.
-/

set_option autoImplicit false

namespace HexDuel

theorem List.nodup_eraseDups {α : Type} [BEq α] [LawfulBEq α] (xs : List α) :
    xs.eraseDups.Nodup := by
  match xs with
  | [] => exact List.nodup_nil
  | x :: xs =>
    rw [List.eraseDups_cons, List.nodup_cons]
    refine ⟨fun hmem => ?_, List.nodup_eraseDups _⟩
    simpa using (List.mem_filter.1 (List.mem_eraseDups.1 hmem)).2
termination_by xs.length
decreasing_by exact Nat.lt_succ_of_le (List.length_filter_le _ _)

namespace Hex
variable {enter : Hex → Bool} {start goal a b : Hex} {cells : List Hex} {n steps : Nat}

/-! ### Ways -/

/-- On the board, the neighbours of a cell are the cells at a distance of one. -/
theorem mem_neighbors_iff (ha : a ∈ all) : b ∈ a.neighbors ↔ b ∈ all ∧ a.adjacent b = true := by
  constructor
  · intro h
    exact ⟨mem_all_iff.2 ⟨onBoard_of_mem_neighbors h, level_of_mem_neighbors (mem_all_iff.1 ha).2 h⟩,
      beq_iff_eq.2 (distance_of_mem_neighbors h)⟩
  · rintro ⟨hb, hnear⟩
    have hcells : ∀ a ∈ all, ∀ b ∈ all, a.adjacent b = true → b ∈ a.neighbors := by
      decide +kernel
    exact hcells a ha b hb hnear

/-- A way, cell by cell: each cell is next to the one before it, is on the board and may be
entered. -/
structure Way (enter : Hex → Bool) (start : Hex) (cells : List Hex) (goal : Hex) : Prop where
  chain : (start :: cells).IsChain fun a b => a.adjacent b = true
  onBoard : ∀ h ∈ cells, h ∈ all
  entered : ∀ h ∈ cells, enter h = true
  ends : (start :: cells).getLast? = some goal

theorem Way.here : Way enter start [] start where
  chain := List.isChain_singleton start
  onBoard _ h := nomatch h
  entered _ h := nomatch h
  ends := rfl

theorem Way.step (h : Way enter start cells a) (hnear : a.adjacent b = true) (hb : b ∈ all)
    (hfree : enter b = true) : Way enter start (cells ++ [b]) b where
  chain := by
    rw [← List.cons_append, List.isChain_append]
    refine ⟨h.chain, List.isChain_singleton b, ?_⟩
    simpa [h.ends] using hnear
  onBoard := List.forall_mem_append.2 ⟨h.onBoard, by simpa using hb⟩
  entered := List.forall_mem_append.2 ⟨h.entered, by simpa using hfree⟩
  ends := by rw [← List.cons_append, List.getLast?_append]; rfl

/-- The last step of a way. -/
theorem Way.exists_of_append (h : Way enter start (cells ++ [b]) goal) :
    goal = b ∧ ∃ a, Way enter start cells a ∧ a.adjacent b = true ∧ b ∈ all ∧ enter b = true := by
  have hends := h.ends
  have hchain := h.chain
  rw [← List.cons_append, List.getLast?_append] at hends
  rw [← List.cons_append, List.isChain_append] at hchain
  obtain ⟨hboard, hb⟩ := List.forall_mem_append.1 h.onBoard
  obtain ⟨hentered, hfree⟩ := List.forall_mem_append.1 h.entered
  refine ⟨(Option.some.inj hends).symm, (start :: cells).getLast (List.cons_ne_nil _ _),
    ⟨hchain.1, hboard, hentered, List.getLast?_eq_some_getLast _⟩, ?_, by simpa using hb,
    by simpa using hfree⟩
  exact hchain.2.2 _ (List.getLast?_eq_some_getLast _) b rfl

theorem Way.goal_mem_all (h : Way enter start cells goal) (hstart : start ∈ all) : goal ∈ all := by
  obtain hhere | hlater := List.mem_cons.1 (List.mem_of_getLast? h.ends)
  · exact hhere ▸ hstart
  · exact h.onBoard goal hlater

/-- A path in so many steps is a way over so many cells. -/
theorem path_iff_exists_way (hstart : start ∈ all) :
    Path enter start n goal ↔ ∃ cells, cells.length = n ∧ Way enter start cells goal := by
  constructor
  · intro h
    induction h with
    | here => exact ⟨[], rfl, .here⟩
    | step _ hb hfree ih =>
      obtain ⟨cells, rfl, hway⟩ := ih
      obtain ⟨hb, hnear⟩ := (mem_neighbors_iff (hway.goal_mem_all hstart)).1 hb
      exact ⟨cells ++ [_], List.length_append, hway.step hnear hb hfree⟩
  · rintro ⟨cells, rfl, hway⟩
    induction cells using List.reverseRecOn generalizing goal with
    | nil => exact Option.some.inj hway.ends ▸ .here
    | append_singleton cells b ih =>
      obtain ⟨rfl, a, hway, hnear, hb, hfree⟩ := hway.exists_of_append
      rw [List.length_append]
      exact (ih hway).step ((mem_neighbors_iff (hway.goal_mem_all hstart)).2 ⟨hb, hnear⟩) hfree

/-! ### The order of the search -/

/-- A longer search goes on where the shorter one ends, with cells that are new. -/
theorem exists_search_succ (enter : Hex → Bool) (steps : Nat) (found layer : List Hex) :
    ∃ last, search enter (steps + 1) found layer = search enter steps found layer ++ last ∧
      last.Nodup ∧ ∀ h ∈ last, h ∉ search enter steps found layer := by
  induction steps generalizing found layer with
  | zero =>
    refine ⟨nextLayer enter found layer, ?_, List.nodup_eraseDups _, fun h hmem => ?_⟩
    · unfold search
      dsimp only
      split
      · rename_i hempty
        rw [List.isEmpty_iff.1 hempty, List.append_nil]
      · rfl
    · have hnew := (List.mem_filter.1 (List.mem_eraseDups.1 hmem)).2
      simpa [search] using (Bool.and_eq_true_iff.1 hnew).2
  | succ steps ih =>
    simp only [search.eq_2]
    split
    · exact ⟨[], (List.append_nil _).symm, List.nodup_nil, fun h hmem => nomatch hmem⟩
    · exact ih _ _

/-- The search finds each cell once. -/
theorem nodup_search (enter : Hex → Bool) (start : Hex) (steps : Nat) :
    (search enter steps [start] [start]).Nodup := by
  induction steps with
  | zero => exact List.nodup_singleton start
  | succ steps ih =>
    obtain ⟨last, heq, hlast, hnew⟩ := exists_search_succ enter steps [start] [start]
    rw [heq, List.nodup_append]
    refine ⟨ih, hlast, fun a ha b hb hab => ?_⟩
    exact hnew b hb (hab ▸ ha)

/-- For every path to the second cell there is one to the first that is no longer. -/
def NoFarther (enter : Hex → Bool) (start a b : Hex) : Prop :=
  ∀ n, Path enter start n b → ∃ k ≤ n, Path enter start k a

/-- What the search finds earlier is no farther away. -/
theorem pairwise_search (enter : Hex → Bool) (start : Hex) (steps : Nat) :
    (search enter steps [start] [start]).Pairwise (NoFarther enter start) := by
  induction steps with
  | zero => exact List.pairwise_singleton _ _
  | succ steps ih =>
    obtain ⟨last, heq, hlast, hnew⟩ := exists_search_succ enter steps [start] [start]
    -- the cells of the last round are as far away as there were rounds
    have hleast : ∀ b ∈ last, IsLeast {k | Path enter start k b} (steps + 1) := by
      intro b hb
      exact isLeast_of_mem_search (heq ▸ List.mem_append_right _ hb) (hnew b hb)
    rw [heq, List.pairwise_append]
    refine ⟨ih, List.pairwise_of_forall_mem_list fun a ha b hb n hpath => ?_,
      fun a ha b hb n hpath => ?_⟩
    · exact ⟨steps + 1, (hleast b hb).2 hpath, (hleast a ha).1⟩
    · obtain ⟨k, hk, hfirst⟩ := mem_search_iff.1 ha
      have hfar : steps + 1 ≤ n := (hleast b hb).2 hpath
      exact ⟨k, by omega, hfirst⟩

end Hex

namespace Match
variable {m : Match} {start : Hex} {p : Piece} {left : Int}

theorem movesLeft_nonneg (h : p.movesLeft = .ok left) : 0 ≤ left := by
  unfold Piece.movesLeft at h
  split at h
  · cases h
    exact Int.le_refl 0
  · obtain ⟨speed, -, h⟩ := Outcome.exists_of_bind h
    obtain ⟨word, -, h⟩ := Outcome.exists_of_bind h
    cases h
    exact Int.le_max_right word 0

/-- Where an object can move: to the free cells at the ends of the ways that are no longer than what
it has left to move, each listed once, and the nearer ones first. -/
theorem movementHexes_exact (hstart : start ∈ Hex.all) (hp : m.board.pieceAt? start = some p)
    (hleft : p.movesLeft = .ok left) : ∃ hexes, m.movementHexes start = .ok hexes ∧ hexes.Nodup ∧
      (hexes.Pairwise fun a b => ∀ way, Hex.Way (m.enters p) start way b →
        ∃ way', way'.length ≤ way.length ∧ Hex.Way (m.enters p) start way' a) ∧
      ∀ h, h ∈ hexes ↔ h ∈ Hex.all ∧ m.board.occupied h = false ∧
        ∃ way, (way.length : Int) ≤ left ∧ Hex.Way (m.enters p) start way h := by
  refine ⟨m.reachable left.toNat p.canMoveOverPieces start, ?_, ?_, ?_, fun h => ?_⟩
  · unfold movementHexes
    rw [hp]
    dsimp only
    rw [hleft]
    rfl
  · exact (Hex.nodup_search (m.enters p) start left.toNat).filter _
  · refine ((Hex.pairwise_search (m.enters p) start left.toNat).filter _).imp ?_
    intro a b hnear way hway
    obtain ⟨k, hk, hpath⟩ := hnear _ ((Hex.path_iff_exists_way hstart).2 ⟨way, rfl, hway⟩)
    obtain ⟨way', rfl, hway'⟩ := (Hex.path_iff_exists_way hstart).1 hpath
    exact ⟨way', hk, hway'⟩
  · have hfound : h ∈ Hex.search (m.enters p) left.toNat [start] [start] ↔
        ∃ way, (way.length : Int) ≤ left ∧ Hex.Way (m.enters p) start way h := by
      rw [Hex.mem_search_iff]
      constructor
      · rintro ⟨k, hk, hpath⟩
        obtain ⟨way, rfl, hway⟩ := (Hex.path_iff_exists_way hstart).1 hpath
        exact ⟨way, (Int.le_toNat (movesLeft_nonneg hleft)).1 hk, hway⟩
      · rintro ⟨way, hlength, hway⟩
        exact ⟨way.length, (Int.le_toNat (movesLeft_nonneg hleft)).2 hlength,
          (Hex.path_iff_exists_way hstart).2 ⟨way, rfl, hway⟩⟩
    constructor
    · intro hmem
      obtain ⟨hmem, hfree⟩ := List.mem_filter.1 hmem
      obtain ⟨way, hlength, hway⟩ := hfound.1 hmem
      exact ⟨hway.goal_mem_all hstart, by simpa using hfree, way, hlength, hway⟩
    · rintro ⟨-, hfree, hway⟩
      exact List.mem_filter.2 ⟨hfound.2 hway, by simpa using hfree⟩

/-- A robot that can make three moves, and a structure that stands in its way. -/
theorem movementHexes_exact_solo : ∃ (m : Match) (p : Piece), Hex.axial (-3) 1 ∈ Hex.all ∧
    m.board.pieceAt? (.axial (-3) 1) = some p ∧ p.movesLeft = .ok 3 ∧
    m.board.occupied (.axial (-3) 2) = true ∧
    ∃ hexes, m.movementHexes (.axial (-3) 1) = .ok hexes ∧ hexes.Nodup ∧
      (hexes.Pairwise fun a b => ∀ way, Hex.Way (m.enters p) (.axial (-3) 1) way b →
        ∃ way', way'.length ≤ way.length ∧ Hex.Way (m.enters p) (.axial (-3) 1) way' a) ∧
      ∀ h, h ∈ hexes ↔ h ∈ Hex.all ∧ m.board.occupied h = false ∧
        ∃ way, (way.length : Int) ≤ 3 ∧ Hex.Way (m.enters p) (.axial (-3) 1) way h := by
  have hrun : ((MatchSetup.solo [.making .robot ⟨some 1, 1, some 3⟩,
      .making .building ⟨none, 1, none⟩, .moveAgain (.piecesInPlay (.only .robot))]).start.holds
      fun m => (m.submitTraced maxDepth .playSolo).holds fun x =>
        ((x.1.board.pieceAt? (.axial (-3) 1)).any fun p => p.movesLeft.holds (· == 3)) &&
          x.1.board.occupied (.axial (-3) 2)) = true := by
    decide +kernel
  obtain ⟨_, -, hrun⟩ := Outcome.exists_of_holds hrun
  obtain ⟨⟨m, _⟩, -, hrun⟩ := Outcome.exists_of_holds hrun
  obtain ⟨hrobot, hstructure⟩ := Bool.and_eq_true_iff.1 hrun
  obtain ⟨p, hp, hleft⟩ := (Option.any_eq_true _ _).1 hrobot
  obtain ⟨_, hleft, heq⟩ := Outcome.exists_of_holds hleft
  obtain rfl := eq_of_beq heq
  have hstart : Hex.axial (-3) 1 ∈ Hex.all := by decide
  exact ⟨m, p, hstart, hp, hleft, hstructure, movementHexes_exact hstart hp hleft⟩

end Match
end HexDuel
