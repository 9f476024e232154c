import HexDuel.Proofs.Bounds
import HexDuel.Proofs.Doom

/-!
Nothing of a resolution is left over. An object is being played, it falls, and an event keeps its
place in the hand only in the middle of a command: whatever the command brings about meanwhile, no
match between commands shows any of it.
-/

set_option autoImplicit false

namespace HexDuel

/-! ### Objects that go on -/

namespace Stage.GoesOn
variable {s s' s'' : Stage}

theorem trans (h : s.GoesOn s') (h' : s'.GoesOn s'') (hlater : s'.trace <:+ s''.trace) :
    s.GoesOn s'' := by
  intro id r hr
  obtain ⟨q, hq, hgoes'⟩ := h' id r hr
  obtain ⟨p, hp, hgoes⟩ := h id q hq
  have hpardons : pardons s''.trace = false → pardons s'.trace = false :=
    any_eq_false_of_suffix hlater
  exact ⟨p, hp, hgoes'.owner.trans hgoes.owner,
    fun hnone => (hgoes'.bars hnone).trans (hgoes.bars (hpardons hnone)),
    fun hplayed => hgoes.justPlayed (hgoes'.justPlayed hplayed)⟩

theorem erase (s : Stage) (id : PieceId) : s.GoesOn (s.map (·.changeBoard (·.erase id))) := by
  intro k q hq
  rw [Stage.map, Match.changeBoard, Board.get?_erase] at hq
  split at hq
  · cases hq
  · exact ⟨q, hq, .refl q⟩

end Stage.GoesOn

variable {s s' : Stage}

theorem TakenOff.goesOn {id : PieceId} {p : Piece} (h : TakenOff s id p s') : s.GoesOn s' :=
  (Stage.GoesOn.erase s id).trans (.of_tended h.removed.tended)
    (steps_of_tended h.removed.tended).trace_suffix

theorem TakenOff.goesOn_returned {id : PieceId} {p : Piece} {c : Color} {card : Card}
    (h : TakenOff s id p s') : s.GoesOn (s'.map fun m => Play.giveBack c card m.checkVictory) :=
  h.goesOn.trans (.of_board (s'.board_returned c card)) List.suffix_rfl

theorem Buried.goesOn {id : PieceId} (h : Buried id s s') : s.GoesOn s' := by
  cases h with
  | gone => exact .of_board rfl
  | @discard p mid h =>
    exact h.goesOn.trans (.of_board (mid.board_discarded p.owner p.card.reset)) List.suffix_rfl

/-- That it is announced does not keep an object from going on. -/
theorem Stage.Dooms.goesOn {id : PieceId} {start : Stage} (h : s.Dooms id start) (card : Card) :
    s.GoesOn (start.topple id card) := by
  have hfall : start.GoesOn (start.topple id card) :=
    .of_becomes (.modify .refl (f := (·.fall)) (fun _ => .of_eq rfl rfl rfl) start.game.board id)
  obtain rfl | rfl := h
  · exact hfall
  · have hcondemned : s.GoesOn (s.map (·.changePiece id (·.condemn))) :=
      .piece id fun _ => .of_eq rfl rfl rfl
    exact hcondemned.trans hfall (List.suffix_cons _ _)

theorem Stage.goesOn_retire (s : Stage) : s.GoesOn s.retire := by
  refine .of_becomes (.trans (fun _ _ _ => .trans) (.mapPieces (f := (·.endTurnOf s.game.turn))
    (fun p => ?_) s.game.board) ?_)
  · unfold Piece.endTurnOf
    split <;> exact .of_eq rfl rfl rfl
  · exact (Piece.upkept_goesOn _).withdrawAll (f := (·.countDown)) (fun _ => .of_eq rfl rfl rfl) _ _

theorem Stage.goesOn_handOver (s : Stage) (c : Color) : s.GoesOn (s.handOver c) :=
  .of_board (Match.board_checkVictory s.game)

/-! ### Objects that are being played -/

/-- The object is being played. -/
def Board.Plays (b : Board) (id : PieceId) : Prop := ∃ p, b.get? id = some p ∧ p.justPlayed = true

theorem Stage.GoesOn.plays (h : s.GoesOn s') {id : PieceId} (hid : s'.game.board.Plays id) :
    s.game.board.Plays id := by
  obtain ⟨q, hq, hplayed⟩ := hid
  obtain ⟨p, hp, hgoes⟩ := h id q hq
  exact ⟨p, hp, hgoes.justPlayed hplayed⟩

/-- A board on which objects have only been changed, and none so that it is being played. -/
theorem Board.Plays.of_becomes {b b' : Board} {id : PieceId} (hid : b'.Plays id)
    (h : b.Becomes (fun p q => q.justPlayed = p.justPlayed) b') : b.Plays id := by
  obtain ⟨q, hq, hplayed⟩ := hid
  obtain ⟨p, hp, hsame⟩ := h.get? hq
  exact ⟨p, hp, hsame ▸ hplayed⟩

theorem Board.Plays.enter {b : Board} {p : Piece} {id : PieceId} (h : (b.enter p).Plays id) :
    b.Plays id ∨ id = p.id ∧ p.justPlayed = true := by
  obtain ⟨q, hq, hplayed⟩ := h
  obtain ⟨hid, rfl⟩ | hold := Board.get?_enter hq
  · exact .inr ⟨hid, hplayed⟩
  · exact .inl ⟨q, hold, hplayed⟩

theorem Board.Plays.of_modify {b : Board} {k id : PieceId} {f : Piece → Piece}
    (hf : ∀ p : Piece, (f p).justPlayed = p.justPlayed) (h : (b.modify k f).Plays id) :
    b.Plays id :=
  h.of_becomes (.modify (R := fun p q => q.justPlayed = p.justPlayed) (fun _ => rfl) hf b k)

theorem Stage.Delays.plays (h : s.Delays s') {id : PieceId} (hid : s'.game.board.Plays id) :
    s.game.board.Plays id := by
  cases h with
  | takeControl owner k =>
    have hid : (Resolving.takeControl owner k s.game).board.Plays id := hid
    unfold Resolving.takeControl at hid
    split at hid
    · exact hid
    · split at hid
      · exact hid
      · exact Board.Plays.of_modify (f := (·.joining owner)) (fun _ => rfl) hid
  | @exert k _ f hmarks =>
    exact Board.Plays.of_modify (f := f) (fun p => by cases hmarks <;> rfl) hid

theorem Stage.Begins.plays (h : s.Begins s') {id : PieceId} (hid : s'.game.board.Plays id) :
    s.game.board.Plays id := by
  cases h with
  | closed => exact hid
  | begun =>
    refine hid.of_becomes (.mapPieces (f := (·.beginTurnOf s.game.turn)) (fun p => ?_) s.game.board)
    unfold Piece.beginTurnOf
    split <;> rfl

/-- No conduct plays a card. -/
theorem Conduct.plays (h : Conduct s s') {id : PieceId} (hid : s'.game.board.Plays id) :
    s.game.board.Plays id := by
  induction h with
  | refl => exact hid
  | trans _ _ ih ih' => exact ih (ih' hid)
  | errand _ _ hgoes => exact hgoes.plays hid
  | delay h => exact h.plays hid
  | fund => exact hid
  | reapply h => exact (Stage.GoesOn.of_tended (Play.goes_reapply _ _ _ h)).plays hid
  | install _ _ _ h => exact (Stage.GoesOn.of_tended (Play.goes_grant _ _ _ _ _ _ _ h)).plays hid
  | condemn k =>
    exact (Stage.GoesOn.piece k (f := (·.condemn)) fun _ => .of_eq rfl rfl rfl).plays hid
  | destroy _ _ hdooms _ hburied ih =>
    exact (hdooms.goesOn _).plays (ih (hburied.goesOn.plays hid))
  | giveBack h => exact h.goesOn_returned.plays hid
  | spawn _ hresolve _ hinquired =>
    have hfound := (Resolving.inquired_of_resolve hresolve).trans hinquired
    obtain hold | ⟨-, hplayed⟩ := Board.Plays.enter hid
    · exact (Stage.GoesOn.of_board (board_of_inquired hfound)).plays hold
    · cases hplayed
  | pass _ _ hbegins ih =>
    have hended := (Stage.goesOn_handOver _ _).plays (hbegins.plays hid)
    exact (Stage.goesOn_retire _).plays (ih hended)

/-- The object that lands is the only one that comes to be played, and it bears the last number. -/
theorem Stage.Lands.plays (h : s.Lands s') {id : PieceId} (hid : s'.game.board.Plays id) :
    s.game.board.Plays id ∨ id = s'.game.lastId := by
  obtain @⟨player, k, card, _, hex, -, htakes, -⟩ := h
  obtain hold | ⟨hlast, -⟩ := Board.Plays.enter hid
  · exact .inl hold
  · exact .inr hlast

/-- Once it has arrived, it is not being played any more. -/
theorem Stage.plays_arrived {placed : Stage} {id : PieceId}
    (h : (s.arrived placed).game.board.Plays id) :
    id ≠ placed.game.lastId ∧ s.game.board.Plays id := by
  obtain ⟨q, hq, hplayed⟩ := h
  have hget : (s.game.board.modify placed.game.lastId (·.arrive)).get? id = some q := hq
  rw [Board.get?_modify] at hget
  obtain ⟨p, hp, rfl⟩ := Option.map_eq_some_iff.1 hget
  split at hplayed
  · cases hplayed
  · rename_i hne
    exact ⟨by simpa using hne, p, hp, hplayed⟩

theorem Venture.plays (h : Venture s s') {id : PieceId} (hid : s'.game.board.Plays id) :
    s.game.board.Plays id := by
  cases h with
  | conduct h => exact h.plays hid
  | @piece paid placed settled _ hpaid hlands hsettled h =>
    have harrived : (settled.arrived placed).game.board.Plays id := h.plays hid
    obtain ⟨hne, hplays⟩ := Stage.plays_arrived harrived
    obtain hold | hlast := hlands.plays (hsettled.plays hplays)
    · exact hpaid.plays hold
    · exact absurd hlast hne
  | event hresolved hshelved h =>
    have hplays := h.plays hid
    cases hshelved with
    | gone | spent => exact hresolved.plays hplays

/-! ### Matches -/

namespace Match
variable {m m' : Match}

theorem Retold.plays (h : m.Retold m') {id : PieceId} (hid : m'.board.Plays id) :
    m.board.Plays id := by
  obtain ⟨n, rfl⟩ := h
  exact hid

/-- Between commands no object is being played. -/
theorem Reachable.not_plays (hm : m.Reachable) (id : PieceId) : ¬ m.board.Plays id := by
  induction hm with
  | start h =>
    rintro ⟨p, hp, hplayed⟩
    obtain ⟨-, rfl⟩ | ⟨-, rfl⟩ := MatchSetup.core_of_start h hp <;> cases hplayed
  | @next _ m m' _ _ _ h ih =>
    intro hid
    obtain ⟨first, last, hundergoes⟩ := undergoes h
    refine ih (hundergoes.begins.told.plays ?_)
    by_cases haccepted : m'.Accepted
    · exact hundergoes.venture.plays ((hundergoes.stands haccepted).1.told.plays hid)
    · exact absurd ((hundergoes.discarded haccepted).told.plays hid) (ih)

/-- Between commands no event keeps its place in a hand. -/
theorem Reachable.not_resolving (hm : m.Reachable) : m.eventResolving = false := by
  induction hm with
  | start h => exact congrArg (·.2.slot) (MatchSetup.bearing_start h)
  | next _ h ih => exact (within_submitted h ih).slot.trans ih

/-- Between commands no event is being resolved, and no object is being played or falls, however the
commands before have ended and whatever they have brought about in between. -/
theorem Reachable.nothing_left_over (hm : m.Reachable) :
    m.eventResolving = false ∧
    ∀ p ∈ m.board.pieces, p.justPlayed = false ∧ p.condemned = false ∧ p.falling = false := by
  refine ⟨hm.not_resolving, fun p hp => ?_⟩
  obtain ⟨⟨id, p⟩, hmem, rfl⟩ := List.mem_map.1 hp
  have hget : m.board.get? id = some p := Board.get?_of_mem hm.board_sound.nodup hmem
  obtain ⟨hcondemns, hfells⟩ := hm.spared id
  refine ⟨?_, ?_, ?_⟩
  · exact Bool.eq_false_iff.2 fun hplayed => hm.not_plays id ⟨p, hget, hplayed⟩
  · exact Bool.eq_false_iff.2 fun hcondemned => hcondemns ⟨p, hget, hcondemned⟩
  · exact Bool.eq_false_iff.2 fun hfalling => hfells ⟨p, hget, hfalling⟩

/-- Blue's robot is stolen while it is being played, and then ends the turn. -/
theorem Reachable.nothing_left_over_stolen :
    ∃ (m m' : Match) (trace : List Happening), Reachable m ∧
      m.submitTraced maxDepth (.playCard .blue "blue/robot" (some (.axial (-3) 1))) =
        .ok (m', trace) ∧ m'.Accepted ∧ m'.turn = .orange ∧
      (m'.board.get? 3).map (·.owner) = some .orange ∧ m'.eventResolving = false ∧
      ∀ p ∈ m'.board.pieces, p.justPlayed = false ∧ p.condemned = false ∧ p.falling = false := by
  let robot : Card := {
    id := "robot", name := "Robot", type := .robot, baseCost := 0, cost := 0,
    stats := some (.still 1), text := "",
    sentences := [.actions [.takeControl .opponent .thisPiece, .endTurn]], origin := .builtin,
    costAdjustments := [] }
  let s : MatchSetup := { MatchSetup.solo [] with decks := ⟨[robot], []⟩ }
  have hrun : (s.start.holds fun m => (m.submitTraced maxDepth
      (.playCard .blue "blue/robot" (some (.axial (-3) 1)))).holds fun x =>
        x.1.refusal.isNone && x.1.pending.isNone && decide (x.1.turn = .orange ∧
          (x.1.board.get? 3).map (·.owner) = some .orange)) = true := by
    decide +kernel
  obtain ⟨m, hstart, hrun⟩ := Outcome.exists_of_holds hrun
  obtain ⟨⟨m', trace⟩, hplay, hrun⟩ := Outcome.exists_of_holds hrun
  simp only [Bool.and_eq_true, Option.isNone_iff_eq_none, decide_eq_true_eq] at hrun
  obtain ⟨haccepted, hturn, howner⟩ := hrun
  have hm : Reachable m := .start hstart
  exact ⟨m, m', trace, hm, hplay, haccepted, hturn, howner, (hm.next hplay).nothing_left_over⟩

end Match
end HexDuel
