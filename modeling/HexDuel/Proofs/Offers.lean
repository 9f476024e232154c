import HexDuel.Proofs.Legality

/-!
Which cells are offered for an object to act on. They are those to which a move, and on which an
attack, is not refused, and that of the object itself when it can activate something. Only a status
that forbids that is overlooked: the cell is offered all the same.
-/

set_option autoImplicit false

namespace HexDuel

/-! ### Which commands are rejected -/

namespace Attempt
variable {α β : Type} {run : Runner} {player : Color} {s s' : Stage} {p : Piece} {start : Hex}

theorem run_bind_of_ok {a : Attempt α} {k : α → Attempt β} {x : α}
    (h : a.run.run s = .ok (.ok x, s')) : (a >>= k).run.run s = (k x).run.run s' := by
  rw [ExceptT.run_bind, StateT.run_bind, h]
  rfl

theorem run_lift {q : Play α} {x : α} (h : q.run s = .ok (x, s')) :
    (liftM q : Attempt α).run.run s = .ok (.ok x, s') := by
  show (q >>= fun a => Pure.pure (Except.ok a)).run s = _
  rw [StateT.run_bind, h]
  rfl

theorem run_game : game.run.run s = .ok (.ok s.game, s) := rfl

theorem run_ownPieceAt (hp : s.game.board.pieceAt? start = some p) (howner : p.owner = player) :
    (ownPieceAt player start).run.run s = .ok (.ok p, s) := by
  unfold ownPieceAt
  rw [run_bind_of_ok run_game, hp]
  dsimp only
  rw [if_pos howner]
  rfl

theorem rejects_movePiece_iff {stops : List Hex} {goal : Hex} (hsound : s.game.board.Sound)
    (hp : s.game.board.pieceAt? start = some p) (howner : p.owner = player)
    (hstops : s.game.movementHexes start = .ok stops) :
    (∃ st, (perform run player (.movePiece start goal)).run.run s =
      .ok (.error (.illegalMove goal), st)) ↔ goal ∉ stops := by
  constructor
  · rintro ⟨st, h⟩ hgoal
    have hlegal : s.game.Legal player (.movePiece start goal) :=
      ⟨p, stops, hp, howner, hstops, hgoal⟩
    exact not_rejected_of_legal hsound hlegal h
  · intro hgoal
    have hwalk : (walk p.id start goal).run s = .ok (false, s) := by
      rw [Play.run_walk, hstops]
      simp [hgoal]
    refine ⟨s, ?_⟩
    show (movePiece run player start goal).run.run s = _
    unfold movePiece
    rw [run_bind_of_ok (run_ownPieceAt hp howner), run_bind_of_ok (run_lift hwalk)]
    rfl

theorem rejects_attackPiece_iff {hexes : List Hex} {target : Hex} (hsound : s.game.board.Sound)
    (hp : s.game.board.pieceAt? start = some p) (howner : p.owner = player)
    (hhexes : s.game.attackHexes start = .ok hexes) :
    (∃ st, (perform run player (.attackPiece start target)).run.run s =
      .ok (.error (.illegalAttack target), st)) ↔ target ∉ hexes := by
  constructor
  · rintro ⟨st, h⟩ htarget
    have hlegal : s.game.Legal player (.attackPiece start target) :=
      ⟨p, hexes, hp, howner, hhexes, htarget⟩
    exact not_rejected_of_legal hsound hlegal h
  · intro htarget
    have hlift : (liftM (s.game.attackHexes start) : Play (List Hex)).run s = .ok (hexes, s) := by
      rw [hhexes]
      rfl
    refine ⟨s, ?_⟩
    show (attackPiece run player start target).run.run s = _
    unfold attackPiece
    rw [run_bind_of_ok (run_ownPieceAt hp howner), run_bind_of_ok run_game,
      run_bind_of_ok (run_lift hlift), if_pos (by simpa using htarget)]
    rfl

/-- Where it cannot be told what is in reach, the attack fails, too. -/
theorem attackPiece_fails {f : Fault} (target : Hex)
    (hp : s.game.board.pieceAt? start = some p) (howner : p.owner = player)
    (hfault : s.game.attackHexes start = .error f) :
    (perform run player (.attackPiece start target)).run.run s = .error f := by
  show (attackPiece run player start target).run.run s = _
  unfold attackPiece
  rw [run_bind_of_ok (run_ownPieceAt hp howner), run_bind_of_ok run_game, hfault]
  rfl

theorem rejects_activateAbility_iff {index : Nat} (hsound : s.game.board.Sound)
    (hp : s.game.board.pieceAt? start = some p) (howner : p.owner = player) :
    (∃ st, (perform run player (.activateAbility start index)).run.run s =
      .ok (.error .cannotActivate, st)) ↔
        ¬ (p.canActivate = true ∧ index < p.activations.length) := by
  constructor
  · rintro ⟨st, h⟩ ⟨hcan, hindex⟩
    have hlegal : s.game.Legal player (.activateAbility start index) :=
      ⟨p, _, hp, howner, hcan, List.getElem?_eq_getElem hindex⟩
    exact not_rejected_of_legal hsound hlegal h
  · intro hnot
    refine ⟨s, ?_⟩
    show (activateAbility run player start index).run.run s = _
    unfold activateAbility
    rw [run_bind_of_ok (run_ownPieceAt hp howner), run_bind_of_ok run_game,
      hsound.get?_of_pieceAt? hp]
    dsimp only
    by_cases hcan : p.canActivate = true
    · have hnone : p.activations[index]? = none :=
        List.getElem?_eq_none (Nat.not_lt.1 fun hindex => hnot ⟨hcan, hindex⟩)
      rw [hcan, hnone]
      rfl
    · rw [Bool.not_eq_true] at hcan
      rw [hcan]
      rfl

end Attempt

/-! ### Which commands are refused -/

namespace Match
variable {depth : Nat} {m m' : Match} {player : Color} {resumption : Resumption}
  {chosen : List Choice} {c : Command}

/-- The command is refused for that reason. -/
def Refuses (depth : Nat) (m : Match) (c : Command) (r : Rejection) : Prop :=
  ∃ m' trace, m.submitTraced depth c = .ok (m', trace) ∧ m'.refusal = some r

theorem attempt_of_rejected {r : Rejection} {st : Stage}
    (h : (Attempt.perform (Play.runner depth) player resumption).run.run (m.scratch player chosen) =
      .ok (.error r, st)) :
    m.attempt depth player resumption chosen = .ok (m.abandon player r, st.trace) := by
  unfold attempt
  simp only [h, bind, Except.bind]
  rfl

theorem attempt_of_fault {f : Fault}
    (h : (Attempt.perform (Play.runner depth) player resumption).run.run (m.scratch player chosen) =
      .error f) : m.attempt depth player resumption chosen = .error f := by
  unfold attempt
  simp only [h, bind, Except.bind]

/-- The only reason that can also come up later on is that there is nothing to choose from; for any
other, the command is refused just when the attempt is rejected. -/
theorem refuses_iff (hover : m.isOver = false) (hpending : m.pending = none)
    (hturn : c.player = m.turn) (hresumption : c.resumption? = some resumption) {r : Rejection}
    (hr : r ≠ .noValidTargets) :
    m.Refuses depth c r ↔ ∃ st, (Attempt.perform (Play.runner depth) m.turn resumption).run.run
      (m.heard.scratch m.turn []) = .ok (.error r, st) := by
  unfold Refuses
  rw [submitTraced_start hover hpending hturn hresumption]
  constructor
  · rintro ⟨m', trace, h, hrefusal⟩
    cases attempted h with
    | rejected r' hrun =>
      rw [refusal_abandon] at hrefusal
      cases hrefusal
      exact ⟨_, hrun⟩
    | refused r' hrun hr' =>
      rw [refusal_abandon] at hrefusal
      cases hrefusal
      -- nothing was refused when the command was heard, so that a prompt must have done it
      obtain hkept | ⟨-, hnew⟩ := (steps_perform hrun).refusal
      · cases hr'.symm.trans hkept
      · exact absurd (Option.some.inj (hr'.symm.trans hnew)) hr
    | suspended => cases hrefusal
    | carried hrun hnone _ hsettle =>
      cases hrefusal.symm.trans ((steps_settle hsettle).refusal_eq.trans hnone)
  · rintro ⟨st, h⟩
    exact ⟨_, _, attempt_of_rejected h, refusal_abandon _ _ _⟩

section
variable {p : Piece} {start : Hex}

theorem Reachable.refuses_movePiece_iff (hm : m.Reachable) (hwinner : m.winner = none)
    (hpending : m.pending = none) (hp : m.board.pieceAt? start = some p) (howner : p.owner = m.turn)
    {stops : List Hex} (hstops : m.movementHexes start = .ok stops) (goal : Hex) :
    m.Refuses depth (.movePiece m.turn start goal) (.illegalMove goal) ↔ goal ∉ stops := by
  rw [refuses_iff (isOver_eq_false hwinner) hpending rfl rfl (by simp)]
  exact Attempt.rejects_movePiece_iff hm.board_sound hp howner hstops

theorem Reachable.refuses_attackPiece_iff (hm : m.Reachable) (hwinner : m.winner = none)
    (hpending : m.pending = none) (hp : m.board.pieceAt? start = some p) (howner : p.owner = m.turn)
    {hexes : List Hex} (hhexes : m.attackHexes start = .ok hexes) (target : Hex) :
    m.Refuses depth (.attackPiece m.turn start target) (.illegalAttack target) ↔
      target ∉ hexes := by
  rw [refuses_iff (isOver_eq_false hwinner) hpending rfl rfl (by simp)]
  exact Attempt.rejects_attackPiece_iff hm.board_sound hp howner hhexes

theorem Reachable.refuses_activateAbility_iff (hm : m.Reachable) (hwinner : m.winner = none)
    (hpending : m.pending = none) (hp : m.board.pieceAt? start = some p) (howner : p.owner = m.turn)
    (index : Nat) :
    m.Refuses depth (.activateAbility m.turn start index) .cannotActivate ↔
      ¬ (p.canActivate = true ∧ index < p.activations.length) := by
  rw [refuses_iff (isOver_eq_false hwinner) hpending rfl rfl (by simp)]
  exact Attempt.rejects_activateAbility_iff hm.board_sound hp howner

end

end Match

/-! ### What is offered -/

theorem Outcome.fails_of_bind {α β : Type} {x : Outcome α} {k : α → Outcome β} {f : Fault}
    (h : x >>= k = .error f) : x = .error f ∨ ∃ a, x = .ok a ∧ k a = .error f := by
  cases x with
  | error g =>
    cases h
    exact .inl rfl
  | ok a => exact .inr ⟨a, rfl, h⟩

/-- It has abilities to activate, and nothing but a status keeps it from doing so. -/
def Piece.Inert (p : Piece) : Prop :=
  p.activations ≠ [] ∧ p.cantActivate = false ∧ p.hasStatus .cannotActivate = true

theorem Piece.activates_or_inert (p : Piece) :
    ((∃ index, p.canActivate = true ∧ index < p.activations.length) ∨ p.Inert) ↔
      p.activations ≠ [] ∧ p.cantActivate = false := by
  have hsome : (∃ index, index < p.activations.length) ↔ p.activations ≠ [] := by
    rw [← List.length_pos_iff]
    exact ⟨fun ⟨_, hindex⟩ => Nat.zero_lt_of_lt hindex, fun hpos => ⟨0, hpos⟩⟩
  rw [exists_and_left, hsome, Inert, canActivate]
  cases p.cantActivate <;> cases p.hasStatus .cannotActivate <;> simp

namespace Match
variable {m : Match} {start : Hex} {p : Piece}

/-- Where nothing can be offered, it cannot be told what is in reach. -/
theorem attackHexes_of_actionHexes_fails {f : Fault} (h : m.actionHexes start = .error f) :
    m.attackHexes start = .error f := by
  unfold actionHexes at h
  cases hp : m.board.pieceAt? start with
  | none => rw [hp] at h; cases h
  | some p =>
    rw [hp] at h
    obtain hstops | ⟨stops, -, h⟩ := Outcome.fails_of_bind h
    · unfold attackHexes
      rw [hp]
      simp only [hstops, bind, Except.bind]
    · obtain hattacks | ⟨attacks, -, h⟩ := Outcome.fails_of_bind h
      · exact hattacks
      · cases h

/-- The cells offered for an object of the player to move are those to which a move is not refused,
those on which an attack is not refused, and its own when some activation is not refused or the
object is inert. Where they cannot be told, no attack can be carried out. -/
theorem Reachable.offered_iff (hm : m.Reachable) (hwinner : m.winner = none)
    (hpending : m.pending = none) (hp : m.board.pieceAt? start = some p) (howner : p.owner = m.turn)
    (depth : Nat) :
    (∀ hexes, m.actionHexes start = .ok hexes → ∀ hex, hex ∈ hexes ↔
      ¬ m.Refuses depth (.movePiece m.turn start hex) (.illegalMove hex) ∨
      ¬ m.Refuses depth (.attackPiece m.turn start hex) (.illegalAttack hex) ∨
      hex = start ∧
        ((∃ index, ¬ m.Refuses depth (.activateAbility m.turn start index) .cannotActivate) ∨
          p.Inert)) ∧
    ∀ f, m.actionHexes start = .error f →
      ∀ hex, m.submitTraced depth (.attackPiece m.turn start hex) = .error f := by
  constructor
  · intro hexes h hex
    unfold actionHexes at h
    rw [hp] at h
    obtain ⟨stops, hstops, h⟩ := Outcome.exists_of_bind h
    obtain ⟨attacks, hattacks, h⟩ := Outcome.exists_of_bind h
    cases h
    -- each part of the list that is offered is what one kind of command is checked against
    have hactivate : ∀ index,
        ¬ m.Refuses depth (.activateAbility m.turn start index) .cannotActivate ↔
          p.canActivate = true ∧ index < p.activations.length := fun index =>
      (not_congr (hm.refuses_activateAbility_iff hwinner hpending hp howner index)).trans not_not
    have hown : hex ∈ (if !p.activations.isEmpty && !p.cantActivate then [start] else []) ↔
        hex = start ∧ p.activations ≠ [] ∧ p.cantActivate = false := by
      cases hcan : !p.activations.isEmpty && !p.cantActivate with
      | true =>
        have hfacts : p.activations ≠ [] ∧ p.cantActivate = false := by simpa using hcan
        rw [if_pos rfl, List.mem_singleton]
        exact ⟨fun h => ⟨h, hfacts⟩, And.left⟩
      | false =>
        have hnot : ¬ (p.activations ≠ [] ∧ p.cantActivate = false) := by simpa using hcan
        exact ⟨fun h => (List.not_mem_nil h).elim, fun h => (hnot h.2).elim⟩
    rw [hm.refuses_movePiece_iff hwinner hpending hp howner hstops, not_not,
      hm.refuses_attackPiece_iff hwinner hpending hp howner hattacks, not_not,
      exists_congr hactivate, p.activates_or_inert, List.mem_append, List.mem_append, hown, or_assoc]
  · intro f h hex
    rw [submitTraced_start (isOver_eq_false hwinner) hpending rfl rfl]
    exact attempt_of_fault (Attempt.attackPiece_fails hex hp howner
      (attackHexes_of_actionHexes_fails h))

/-- A robot of blue's is offered what is near, but orange's core is too far to move to or attack. -/
theorem Reachable.offered_iff_siege : ∃ (m : Match) (p : Piece) (hexes : List Hex),
    m.Reachable ∧ m.winner = none ∧ m.pending = none ∧
    m.board.pieceAt? (.axial (-3) 1) = some p ∧ p.owner = m.turn ∧
    m.actionHexes (.axial (-3) 1) = .ok hexes ∧ hexes ≠ [] ∧
    m.Refuses maxDepth (.movePiece m.turn (.axial (-3) 1) (.axial 3 0))
      (.illegalMove (.axial 3 0)) ∧
    m.Refuses maxDepth (.attackPiece m.turn (.axial (-3) 1) (.axial 3 0))
      (.illegalAttack (.axial 3 0)) := by
  have hrun : ((siege []).start.holds fun m => (m.submitTraced maxDepth .playSolo).holds fun x =>
      x.1.winner.isNone && x.1.pending.isNone &&
      (x.1.board.pieceAt? (.axial (-3) 1)).any (·.owner == x.1.turn) &&
      (x.1.actionHexes (.axial (-3) 1)).holds fun hexes =>
        !hexes.isEmpty && !hexes.contains (.axial 3 0)) = true := by
    decide +kernel
  obtain ⟨m₀, hstart, hrun⟩ := Outcome.exists_of_holds hrun
  obtain ⟨⟨m, _⟩, hplay, hrun⟩ := Outcome.exists_of_holds hrun
  simp only [Bool.and_eq_true, Option.isNone_iff_eq_none] at hrun
  obtain ⟨⟨⟨hwinner, hpending⟩, hrobot⟩, hoffers⟩ := hrun
  obtain ⟨p, hp, howner⟩ := (Option.any_eq_true _ _).1 hrobot
  obtain ⟨hexes, hhexes, hnear⟩ := Outcome.exists_of_holds hoffers
  obtain ⟨hsome, hfar⟩ : hexes ≠ [] ∧ Hex.axial 3 0 ∉ hexes := by simpa using hnear
  have hm : m.Reachable := .next (.start hstart) hplay
  have hoffered := (hm.offered_iff hwinner hpending hp (eq_of_beq howner) maxDepth).1 hexes hhexes
  have hnot := mt (hoffered (.axial 3 0)).2 hfar
  rw [not_or, not_or, not_not, not_not] at hnot
  exact ⟨m, p, hexes, hm, hwinner, hpending, hp, eq_of_beq howner, hhexes, hsome, hnot.1, hnot.2.1⟩

/-- The cell of a core with an ability that a status keeps it from activating is offered, and yet
the core cannot move to it, attack it or activate anything. -/
theorem inert_offered_solo : ∃ (m : Match) (p : Piece) (hexes : List Hex),
    m.Reachable ∧ m.winner = none ∧ m.pending = none ∧
    m.board.pieceAt? (.axial 3 0) = some p ∧ p.owner = m.turn ∧
    m.actionHexes (.axial 3 0) = .ok hexes ∧ .axial 3 0 ∈ hexes ∧
    m.Refuses maxDepth (.movePiece m.turn (.axial 3 0) (.axial 3 0)) (.illegalMove (.axial 3 0)) ∧
    m.Refuses maxDepth (.attackPiece m.turn (.axial 3 0) (.axial 3 0))
      (.illegalAttack (.axial 3 0)) ∧
    ∀ index, m.Refuses maxDepth (.activateAbility m.turn (.axial 3 0) index) .cannotActivate := by
  have hrun : ((MatchSetup.solo [.giving (.only .core) .thisPiece (.activated "" []),
      .giving (.only .core) .thisPiece (.status .cannotActivate)]).start.holds fun m =>
      (m.submitTraced maxDepth .playSolo).holds fun x =>
      (x.1.submitTraced maxDepth (.passTurn .blue)).holds fun x =>
      x.1.winner.isNone && x.1.pending.isNone &&
      ((x.1.board.pieceAt? (.axial 3 0)).any fun p => p.owner == x.1.turn && !p.canActivate) &&
      ((x.1.movementHexes (.axial 3 0)).holds (!·.contains (.axial 3 0))) &&
      ((x.1.attackHexes (.axial 3 0)).holds (!·.contains (.axial 3 0))) &&
      (x.1.actionHexes (.axial 3 0)).holds (·.contains (.axial 3 0))) = true := by
    decide +kernel
  obtain ⟨m₀, hstart, hrun⟩ := Outcome.exists_of_holds hrun
  obtain ⟨⟨m₁, _⟩, hplay, hrun⟩ := Outcome.exists_of_holds hrun
  obtain ⟨⟨m, _⟩, hpass, hrun⟩ := Outcome.exists_of_holds hrun
  simp only [Bool.and_eq_true, Option.isNone_iff_eq_none] at hrun
  obtain ⟨⟨⟨⟨⟨hwinner, hpending⟩, hcore⟩, hmoves⟩, hattacks⟩, hoffers⟩ := hrun
  obtain ⟨p, hp, hfacts⟩ := (Option.any_eq_true _ _).1 hcore
  obtain ⟨howner, hcannot⟩ : p.owner = m.turn ∧ p.canActivate = false := by simpa using hfacts
  obtain ⟨stops, hstops, hstop⟩ := Outcome.exists_of_holds hmoves
  obtain ⟨attacks, hattacks, hattack⟩ := Outcome.exists_of_holds hattacks
  obtain ⟨hexes, hhexes, hoffered⟩ := Outcome.exists_of_holds hoffers
  have hm : m.Reachable := .next (.next (.start hstart) hplay) hpass
  refine ⟨m, p, hexes, hm, hwinner, hpending, hp, howner, hhexes, by simpa using hoffered,
    (hm.refuses_movePiece_iff hwinner hpending hp howner hstops _).2 (by simpa using hstop),
    (hm.refuses_attackPiece_iff hwinner hpending hp howner hattacks _).2 (by simpa using hattack),
    fun index => (hm.refuses_activateAbility_iff hwinner hpending hp howner index).2 ?_⟩
  rw [hcannot]
  rintro ⟨⟨⟩, -⟩

end Match
end HexDuel
