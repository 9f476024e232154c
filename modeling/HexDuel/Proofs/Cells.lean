import HexDuel.Proofs.ActsCommands
import HexDuel.Proofs.Shifts
import HexDuel.Proofs.Reachable

/-!
The cells on which objects stand. The coordinates of every cell that comes up in a match sum to
zero: neighbours of such cells are such cells, and a player can name no others. So every object
stands on one of the 37 cells of the board, and on one of its own.
-/

set_option autoImplicit false

namespace HexDuel

/-! ### The board's cells -/

namespace Hex

/-- The coordinates sum to zero. -/
def Level (h : Hex) : Prop := h.q + h.r + h.s = 0

theorem mem_interval {lo hi i : Int} : i ∈ interval lo hi ↔ lo ≤ i ∧ i ≤ hi := by
  simp only [interval, List.mem_map, List.mem_range]
  constructor
  · rintro ⟨k, hk, rfl⟩
    omega
  · rintro ⟨hlo, hhi⟩
    exact ⟨(i - lo).toNat, by omega, by omega⟩

theorem onBoard_iff {h : Hex} :
    h.onBoard = true ↔ h.q.natAbs ≤ 3 ∧ h.r.natAbs ≤ 3 ∧ h.s.natAbs ≤ 3 := by
  simp only [onBoard, Bool.and_eq_true, decide_eq_true_eq, and_assoc]
  rfl

theorem mem_all_iff {h : Hex} : h ∈ all ↔ h.onBoard = true ∧ h.Level := by
  simp only [all, List.mem_flatMap, List.mem_map, mem_interval, onBoard_iff, Level, Int.max_le,
    Int.le_min]
  constructor
  · rintro ⟨q, hq, r, hr, rfl⟩
    simp only [axial]
    omega
  · rintro ⟨hboard, hsum⟩
    refine ⟨h.q, by omega, h.r, by omega, ?_⟩
    have hs : h.s = -h.q - h.r := by omega
    rw [axial, ← hs]

theorem level_of_mem_neighbors {h n : Hex} (hh : h.Level) (hn : n ∈ h.neighbors) : n.Level := by
  obtain ⟨d, hd, rfl⟩ := List.mem_map.1 (List.mem_filter.1 hn).1
  have hsum : d.q + d.r + d.s = 0 := by
    have hall : ∀ d ∈ directions, d.q + d.r + d.s = 0 := by decide
    exact hall d hd
  unfold Level at hh ⊢
  simp only [step]
  omega

theorem level_of_mem_nextLayer {enter : Hex → Bool} {found layer : List Hex} {h : Hex}
    (hlayer : ∀ a ∈ layer, a.Level) (hm : h ∈ nextLayer enter found layer) : h.Level := by
  have hm := List.mem_filter.1 (List.mem_eraseDups.1 hm)
  obtain ⟨a, ha, hn⟩ := List.mem_flatMap.1 hm.1
  exact level_of_mem_neighbors (hlayer a ha) hn

theorem level_of_mem_search {enter : Hex → Bool} {steps : Nat} {found layer : List Hex} {h : Hex}
    (hfound : ∀ a ∈ found, a.Level) (hlayer : ∀ a ∈ layer, a.Level)
    (hm : h ∈ search enter steps found layer) : h.Level := by
  induction steps generalizing found layer with
  | zero => exact hfound h hm
  | succ steps ih =>
    unfold search at hm
    dsimp only at hm
    split at hm
    · exact hfound h hm
    · have hnext : ∀ a ∈ nextLayer enter found layer, a.Level :=
        fun a ha => level_of_mem_nextLayer hlayer ha
      refine ih (fun a ha => ?_) hnext hm
      exact (List.mem_append.1 ha).elim (hfound a) (hnext a)

theorem level_of_mem_placements {owner : Color} {h : Hex} (hm : h ∈ owner.placements) :
    h.Level := by
  have hall : ∀ a ∈ owner.placements, a.q + a.r + a.s = 0 := by cases owner <;> decide
  exact hall h hm

end Hex

/-! ### Cells in a match -/

/-- Everything that is on offer or has been named. -/
structure Selection.Level (x : Selection) : Prop where
  offered : ∀ h ∈ x.hexes, h.Level
  named : ∀ h, .hex h ∈ x.chosen → h.Level

theorem Selection.level_none : none.Level where
  offered _ h := nomatch h
  named _ h := nomatch h

theorem Selection.level_answering {chosen : List Choice}
    (h : ∀ hex, .hex hex ∈ chosen → hex.Level) : (answering chosen).Level where
  offered _ hmem := nomatch hmem
  named := h

structure Match.Level (m : Match) : Prop where
  pieces : ∀ e ∈ m.board.entries, e.2.hex.Level
  selections : ∀ c, (m.seat c).selection.Level

structure Stage.Level (s : Stage) : Prop where
  game : s.game.Level
  answered : ∀ player hex c found b,
    .answered player (.hex hex) c found b ∈ questions s.trace → hex.Level

namespace Match
variable {m : Match}

theorem Level.of_notices {m' : Match} (hm : m.Level) (hsame : m'.notices = m.notices)
    (hpieces : ∀ e ∈ m'.board.entries, e.2.hex.Level) : m'.Level := by
  refine ⟨hpieces, fun c => ?_⟩
  rw [← selection_notices, hsame, selection_notices]
  exact hm.selections c

theorem Level.setSelection (hm : m.Level) (c : Color) {x : Selection} (hx : x.Level) :
    (m.setSelection c x).Level := by
  refine ⟨hm.pieces, fun d => ?_⟩
  by_cases hd : d = c
  · subst hd
    rwa [selection_setSelection_self]
  · rw [selection_setSelection_of_ne m x hd]
    exact hm.selections d

theorem Level.setStatus (hm : m.Level) (c : Color) (text : String) : (m.setStatus c text).Level :=
  ⟨hm.pieces, fun d => by rw [selection_setStatus]; exact hm.selections d⟩

theorem level_of_pieceAt? (hm : m.Level) {hex : Hex} {p : Piece}
    (hp : m.board.pieceAt? hex = some p) : hex.Level := by
  obtain ⟨hmem, rfl⟩ := Board.mem_of_pieceAt? hp
  obtain ⟨e, he, rfl⟩ := List.mem_map.1 hmem
  exact hm.pieces e he

theorem level_of_mem_movementHexes (hm : m.Level) {start goal : Hex} {hexes : List Hex}
    (h : m.movementHexes start = .ok hexes) (hg : goal ∈ hexes) : goal.Level := by
  unfold movementHexes at h
  cases hp : m.board.pieceAt? start with
  | none =>
    rw [hp] at h
    cases h
    cases hg
  | some p =>
    have hstart : ∀ a ∈ [start], a.Level :=
      fun a ha => List.mem_singleton.1 ha ▸ level_of_pieceAt? hm hp
    rw [hp] at h
    cases hleft : p.movesLeft with
    | error f => simp only [hleft] at h; cases h
    | ok left =>
      simp only [hleft] at h
      cases h
      exact Hex.level_of_mem_search hstart hstart (List.mem_filter.1 hg).1

theorem level_of_mem_placementHexes (hm : m.Level) {player : Color} {type : CardType} {hex : Hex}
    (h : hex ∈ m.placementHexes player type) : hex.Level := by
  have hmem := (List.mem_filter.1 (List.mem_eraseDups.1 h)).1
  cases type with
  | robot => exact Hex.level_of_mem_placements hmem
  | building =>
    obtain ⟨p, hp, hn⟩ := List.mem_flatMap.1 hmem
    obtain ⟨e, he, rfl⟩ := List.mem_map.1 (List.mem_filter.1 hp).1
    exact Hex.level_of_mem_neighbors (hm.pieces e he) hn
  | event | core => cases hmem

end Match

namespace Stage
variable {s s' : Stage}

theorem Level.known (hs : s.Level) {hex : Hex} (h : s.Knows hex) : hex.Level := by
  obtain hall | ⟨player, c, found, b, hmem⟩ := h
  · exact (Hex.mem_all_iff.1 hall).2
  · exact hs.answered player hex c found b (List.mem_filter.2 ⟨hmem, rfl⟩)

theorem Level.open (hs : s.Level) {hex : Hex} (h : s.Opens hex) : hex.Level := by
  cases h with
  | known h => exact hs.known h
  | walk h hmem => exact Match.level_of_mem_movementHexes hs.game h hmem
  | placement h => exact Match.level_of_mem_placementHexes hs.game h

theorem Level.of_questions (hs : s.Level) {s' : Stage}
    (hsame : questions s'.trace = questions s.trace) (hgame : s'.game.Level) : s'.Level := by
  refine ⟨hgame, ?_⟩
  rw [hsame]
  exact hs.answered

end Stage

/-! ### Shifts -/

namespace Board

theorem mem_modify {b : Board} {id : PieceId} {f : Piece → Piece} {e : PieceId × Piece}
    (h : e ∈ (b.modify id f).entries) :
    e ∈ b.entries ∨ ∃ e' ∈ b.entries, e'.1 = id ∧ e = (e'.1, f e'.2) := by
  obtain ⟨e', hmem, rfl⟩ := List.mem_map.1 h
  split
  · rename_i hid
    exact .inr ⟨e', hmem, by simpa using hid, rfl⟩
  · exact .inl hmem

end Board

/-- The cells that are offered are those of the candidates. -/
theorem Resolving.level_offer {s : Stage} (hs : s.Level) {c : Collection}
    (hknown : ∀ h ∈ c.cells, s.Knows h) : (offer s.game.board c).Level := by
  refine ⟨fun h hmem => ?_, fun h hmem => ?_⟩
  · cases c with
    | pieces ids =>
      obtain ⟨p, hp, rfl⟩ := List.mem_map.1 hmem
      obtain ⟨id, _, hget⟩ := List.mem_filterMap.1 (List.mem_filter.1 hp).1
      exact hs.game.pieces (id, p) (Board.mem_of_get? hget)
    | hexes xs => exact hs.known (hknown h (List.mem_filter.1 hmem).1)
    | cards | players => cases hmem
  · rw [chosen_offer] at hmem
    cases hmem

variable {s s' : Stage}

theorem Resolving.Consulted.level {c : Collection} {ctx : Context} {x : Collection × Context}
    (h : Consulted c ctx s x s') (hknown : ∀ h ∈ c.cells, s.Knows h) (hs : s.Level) : s'.Level := by
  have hrecord := hs.game.selections s.game.turn
  cases h with
  | waiting => exact hs
  | refused => exact ⟨⟨hs.game.pieces, hs.game.selections⟩, hs.answered⟩
  | suspended =>
    refine ⟨hs.game.setSelection _ (level_offer hs hknown), ?_⟩
    intro player hex c found b hmem
    obtain heq | hbefore := List.mem_cons.1 hmem
    · cases heq
    · exact hs.answered player hex c found b hbefore
  | answered choice later hchosen =>
    have hnamed : ∀ h, .hex h ∈ choice :: later → h.Level := hchosen ▸ hrecord.named
    refine ⟨hs.game.setSelection _ ⟨hrecord.offered, fun h hmem => ?_⟩, ?_⟩
    · exact hnamed h (List.mem_cons_of_mem _ hmem)
    · intro player hex c found b hmem
      obtain heq | hbefore := List.mem_cons.1 hmem
      · cases heq
        exact hnamed hex List.mem_cons_self
      · exact hs.answered player hex c found b hbefore

theorem Shift.level (h : Shift s s') (hs : s.Level) : s'.Level := by
  cases h with
  | still h =>
    obtain ⟨g, hg, hboard⟩ := h.board
    refine hs.of_questions h.questions (hs.game.of_notices h.notices fun e he => ?_)
    rw [hboard] at he
    obtain ⟨e, hmem, rfl⟩ := List.mem_map.1 he
    exact (hg e).hex ▸ hs.game.pieces e hmem
  | place card owner justPlayed _ hopen =>
    refine hs.of_questions rfl (hs.game.of_notices rfl fun e he => ?_)
    obtain rfl | hmem := Board.mem_enter he
    · exact hs.open hopen
    · exact hs.game.pieces e hmem
  | erase id =>
    exact hs.of_questions rfl (hs.game.of_notices rfl fun e he =>
      hs.game.pieces e (List.mem_filter.1 he).1)
  | move id hf hopen =>
    refine hs.of_questions rfl (hs.game.of_notices rfl fun e he => ?_)
    obtain hmem | ⟨e', _, _, rfl⟩ := Board.mem_modify he
    · exact hs.game.pieces e hmem
    · exact hs.open hopen
  | addPassive id | addTrigger id =>
    refine hs.of_questions rfl (hs.game.of_notices rfl fun e he => ?_)
    obtain hmem | ⟨e', hmem, _, rfl⟩ := Board.mem_modify he
    · exact hs.game.pieces e hmem
    · exact hs.game.pieces e' hmem
  | consult hknown hc => exact hc.level hknown hs
  | leave c =>
    exact hs.of_questions rfl ((hs.game.setSelection c Selection.level_none).setStatus c "")
  | handOver c => exact ⟨⟨hs.game.pieces, hs.game.selections⟩, hs.answered⟩

theorem Deeds.level (h : Deeds s s') (hs : s.Level) : s'.Level :=
  h.shifts.keeps (fun _ _ => Shift.level) hs

/-! ### Commands -/

namespace Match

variable {depth : Nat} {m m' : Match} {c : Command} {player : Color} {resumption : Resumption}
  {chosen : List Choice} {trace : List Happening}

theorem Level.heard (hm : m.Level) : m.heard.Level := ⟨hm.pieces, hm.selections⟩

theorem Level.reject (hm : m.Level) (c : Color) (r : Rejection) : (m.reject c r).Level :=
  ⟨(hm.setStatus c r.message).pieces, (hm.setStatus c r.message).selections⟩

theorem Level.release (hm : m.Level) (c : Color) : (m.release c).Level :=
  have hnone := (hm.setSelection c Selection.level_none).setStatus c ""
  ⟨hnone.pieces, hnone.selections⟩

theorem Level.suspend (hm : m.Level) {offered : Selection} (hoffered : ∀ h ∈ offered.hexes, h.Level)
    (hchosen : ∀ h, .hex h ∈ chosen → h.Level) :
    (m.suspend player resumption offered chosen).Level :=
  have hrecord := (hm.setSelection player (x := { offered with chosen := chosen })
    ⟨hoffered, hchosen⟩).setStatus player "Choose a target"
  ⟨hrecord.pieces, hrecord.selections⟩

theorem Level.stage (hm : m.Level) : Stage.Level ⟨m, []⟩ where
  game := hm
  answered _ _ _ _ _ h := nomatch h

theorem Level.scratch (hm : m.Level) (hchosen : ∀ h, .hex h ∈ chosen → h.Level) :
    (m.scratch player chosen).Level :=
  (hm.setSelection player (Selection.level_answering hchosen)).stage

theorem Attempted.level (h : Attempted depth m player resumption chosen m' trace) (hm : m.Level)
    (hchosen : ∀ h, .hex h ∈ chosen → h.Level) : m'.Level := by
  have habandon : ∀ r, (m.abandon player r).Level := by
    intro r
    unfold abandon
    split
    · exact hm.reject player r
    · exact (hm.release player).reject player r
  cases h with
  | rejected r | refused r => exact habandon r
  | suspended hrun =>
    have hst := (act_perform hrun).deeds.level (hm.scratch hchosen)
    exact hm.suspend (hst.game.selections player).offered hchosen
  | carried hrun _ _ hsettle =>
    have hact := (act_perform hrun).trans (act_settle hsettle)
    exact (hact.deeds.level (hm.scratch hchosen)).game.release player

theorem Submitted.level (h : Submitted depth m c m' trace) (hm : m.Level) : m'.Level := by
  cases h with
  | early r => exact hm.reject c.player r
  | started _ _ _ _ h => exact h.level hm fun _ h => nomatch h
  | @answered prompt x _ _ _ _ _ _ hallows h =>
    have hrecord := hm.selections c.player
    refine h.level hm fun hex hmem => ?_
    obtain hbefore | hlast := List.mem_append.1 hmem
    · exact hrecord.named hex hbefore
    · obtain rfl := List.mem_singleton.1 hlast
      exact hrecord.offered hex (by simpa [Selection.allows] using hallows)
  | passed _ _ _ _ hrun => exact ((act_endOfTurn hrun).deeds.level hm.stage).game

theorem Reachable.level (hm : m.Reachable) : m.Level := by
  induction hm with
  | @start s m h =>
    have hboard := MatchSetup.board_start h
    have hnotices := MatchSetup.notices_start h
    refine ⟨?_, fun c => ?_⟩
    · rw [hboard]
      simp only [MatchSetup.openingBoard, List.forall_mem_cons]
      exact ⟨Hex.axial_sum _ _, Hex.axial_sum _ _, List.forall_mem_nil _⟩
    · rw [← selection_notices, hnotices]
      cases c <;> exact Selection.level_none
  | next _ h ih => exact (submitted h).level ih.heard

/-- In every match that can come about each object is kept under its own id and stands on one of the
37 cells of the board, whose coordinates sum to zero, and no two share a cell. -/
theorem Reachable.board_occupancy (hm : m.Reachable) :
    (∀ e ∈ m.board.entries, e.2.id = e.1 ∧ e.2.hex ∈ Hex.all ∧
      e.2.hex.q + e.2.hex.r + e.2.hex.s = 0 ∧ e.2.hex.distance (.axial 0 0) ≤ 3) ∧
    m.board.entries.Pairwise fun e e' => e.1 ≠ e'.1 ∧ e.2.hex ≠ e'.2.hex := by
  refine ⟨fun e he => ?_, hm.board_sound.apart⟩
  have hlevel := hm.level.pieces e he
  have hboard := hm.board_sound.onBoard e he
  refine ⟨hm.board_sound.keyed e he, Hex.mem_all_iff.2 ⟨hboard, hlevel⟩, hlevel, ?_⟩
  have hnear := Hex.onBoard_iff.1 hboard
  simp only [Hex.distance, Hex.axial]
  omega

/-- Blue's card puts a third object on the board. -/
theorem Reachable.board_occupancy_solo :
    ∃ m, Reachable m ∧ m.board.size = 3 ∧
      (∀ e ∈ m.board.entries, e.2.id = e.1 ∧ e.2.hex ∈ Hex.all ∧
        e.2.hex.q + e.2.hex.r + e.2.hex.s = 0 ∧ e.2.hex.distance (.axial 0 0) ≤ 3) ∧
      m.board.entries.Pairwise fun e e' => e.1 ≠ e'.1 ∧ e.2.hex ≠ e'.2.hex := by
  have hrun : ((MatchSetup.solo [.spawnPiece (.generateCard .robot (.still 1) none)
      (.tilesMatching [.unoccupied]) .selfPlayer]).start.holds
      fun m => (m.submitTraced maxDepth .playSolo).holds fun x => x.1.board.size == 3) = true := by
    decide +kernel
  obtain ⟨m, hstart, hrun⟩ := Outcome.exists_of_holds hrun
  obtain ⟨⟨m', trace⟩, hplay, hsize⟩ := Outcome.exists_of_holds hrun
  have hm' : Reachable m' := (Reachable.start hstart).next hplay
  exact ⟨m', hm', by simpa using hsize, hm'.board_occupancy⟩

end Match

/-! ### In the course of a command -/

namespace Stage

/-- The stages that come up while commands are carried out: a command begins at a reachable match,
with the cells that have been named queued, and goes on by deeds. -/
inductive Underway : Stage → Prop where
  | rest {m : Match} : m.Reachable → Underway ⟨m, []⟩
  | passing {m : Match} : m.Reachable → Underway ⟨m.heard, []⟩
  | begun {m : Match} (player : Color) {chosen : List Choice} : m.Reachable →
    (∀ h, .hex h ∈ chosen → h.Level) → Underway (m.heard.scratch player chosen)
  | done {s s' : Stage} : Underway s → Deeds s s' → Underway s'

namespace Underway
variable {s : Stage}

theorem board_sound (hs : s.Underway) : s.game.board.Sound := by
  induction hs with
  | rest hm | passing hm | begun _ hm => exact hm.board_sound
  | done _ h ih => exact h.steps.sound ih

theorem level (hs : s.Underway) : s.Level := by
  induction hs with
  | rest hm => exact hm.level.stage
  | passing hm => exact hm.level.heard.stage
  | begun player hm hchosen => exact hm.level.heard.scratch hchosen
  | done _ h ih => exact h.level ih

/-- Actions lead from one such stage to another. -/
theorem executed {depth : Nat} {actions : List Action} {ctx : Context} {x : Unit × Context}
    {s' : Stage} (hs : s.Underway)
    (h : ((Resolving.executeAll (Play.runner depth) actions).run ctx).run s = .ok (x, s')) :
    s'.Underway :=
  .done hs ((Resolving.goes_executeAll (Play.goes_runner depth) (Play.built_runner false depth)
    actions ctx).conduct h).act.deeds

/-- Every object stands on a cell of the board. -/
theorem hex_mem_all (hs : s.Underway) {e : PieceId × Piece} (he : e ∈ s.game.board.entries) :
    e.2.hex ∈ Hex.all :=
  Hex.mem_all_iff.2 ⟨hs.board_sound.onBoard e he, hs.level.game.pieces e he⟩

end Underway
end Stage
end HexDuel
