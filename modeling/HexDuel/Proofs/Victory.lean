import HexDuel.Proofs.Settling
import HexDuel.Proofs.Standing

/-!
The end of a match. Who has no core left has lost. The cores are looked at whenever one may have
gone or changed sides, and once more when a command is settled, so that no match goes on without them.
A decision stands, whatever the same command may still bring about, and nothing is carried out after
it.
-/

set_option autoImplicit false

namespace HexDuel

/-! ### Cores -/

namespace Board

/-- The player has a core on the board. -/
def HoldsCore (b : Board) (c : Color) : Prop := ∃ p ∈ b.pieces, p.owner = c ∧ p.type = .core

theorem hasCore_iff (b : Board) (c : Color) : b.hasCore c = true ↔ b.HoldsCore c := by
  unfold hasCore coreOf? piecesOf HoldsCore
  simp [List.find?_isSome]

end Board

namespace Match

/-- Blue is looked at first, so that orange has won when neither has a core. -/
theorem victor_eq_some {b : Board} {w : Color} (h : victor b = some w) :
    ¬ b.HoldsCore w.opponent ∧ (¬ b.HoldsCore w → w = .orange) := by
  unfold victor at h
  split at h
  · rename_i hblue
    cases h
    refine ⟨fun hcore => ?_, fun _ => rfl⟩
    have hhas := (b.hasCore_iff .blue).2 hcore
    simp [hhas] at hblue
  · rename_i hblue
    split at h
    · rename_i horange
      cases h
      refine ⟨fun hcore => ?_, fun hnot => ?_⟩
      · have hhas := (b.hasCore_iff .orange).2 hcore
        simp [hhas] at horange
      · exact absurd ((b.hasCore_iff .blue).1 (by simpa using hblue)) hnot
    · cases h

/-! ### Decisions -/

/-- A decision that has been made stands, and one that is made goes by the cores on the board: the
loser has none, and when neither player has any, orange has won. -/
structure Decides (m m' : Match) : Prop where
  stands : ∀ w, m.winner = some w → m'.winner = some w
  made : ∀ w, m.winner = none → m'.winner = some w → m'.board = m.board ∧
    ¬ m.board.HoldsCore w.opponent ∧ (¬ m.board.HoldsCore w → w = .orange)

theorem Decides.of_winner {m m' : Match} (h : m'.winner = m.winner) : m.Decides m' where
  stands w hw := h.trans hw
  made w hnone hw := by
    rw [h, hnone] at hw
    cases hw

theorem winner_declareWinner (m : Match) (w : Color) : (m.declareWinner w).winner = some w := by
  unfold declareWinner
  dsimp only
  split <;> rfl

theorem winner_checkVictory_of_none {m : Match} (h : m.winner = none) :
    m.checkVictory.winner = victor m.board := by
  unfold checkVictory
  simp only [h]
  cases hv : victor m.board with
  | none => exact h
  | some w => exact m.winner_declareWinner w

theorem decides_checkVictory (m : Match) : m.Decides m.checkVictory where
  stands w hw := by rwa [checkVictory_of_winner hw]
  made w hnone hw := by
    rw [winner_checkVictory_of_none hnone] at hw
    exact ⟨board_checkVictory m, victor_eq_some hw⟩

theorem Stirs.decides {m m' : Match} (h : m.Stirs m') : m.Decides m' := by
  cases h with
  | nextTurn | setEnergy => exact .of_winner rfl
  | checkVictory => exact m.decides_checkVictory

end Match

theorem Step.decides {asks ends : Bool} {s s' : Stage} (h : Step asks ends s s') :
    s.game.Decides s'.game := by
  cases h with
  | edit hf =>
    obtain hsame | hstirs := hf.standing s.game
    · exact .of_winner (congrArg Prod.snd hsame)
    · exact hstirs.decides
  | consult _ hc => cases hc <;> exact .of_winner rfl
  | _ => exact .of_winner rfl

/-- A step of a resolution, and what it makes of the decision. -/
structure Stage.Decides (s s' : Stage) : Prop where
  step : ∃ asks ends, Step asks ends s s'
  decides : s.game.Decides s'.game

theorem Steps.decides {asks ends : Bool} {s s' : Stage} (h : Steps asks ends s s') :
    Relation.ReflTransGen Stage.Decides s s' :=
  Relation.ReflTransGen.mono (fun _ _ hstep => ⟨⟨asks, ends, hstep⟩, hstep.decides⟩) _ _ h

/-! ### Commands -/

namespace Match

variable {depth : Nat} {m m' : Match} {c : Command} {resumption : Resumption}
  {chosen : List Choice} {trace : List Happening}

theorem Attempted.decides {player : Color} (h : Attempted depth m.heard player resumption chosen
    m' trace) : ∃ last, Relation.ReflTransGen Stage.Decides (m.heard.scratch player chosen) last ∧
      last.trace = trace ∧ (m'.Accepted → last.game.Retold m') := by
  cases h with
  | rejected r hrun =>
    exact ⟨_, (steps_perform hrun).decides, rfl,
      fun haccepted => (not_accepted_of_refusal (refusal_abandon _ _ r) haccepted).elim⟩
  | refused r hrun =>
    exact ⟨_, (steps_perform hrun).decides, rfl,
      fun haccepted => (not_accepted_of_refusal (refusal_abandon _ _ r) haccepted).elim⟩
  | suspended hrun =>
    exact ⟨_, (steps_perform hrun).decides, rfl, fun haccepted => nomatch haccepted.2⟩
  | carried hrun _ _ hsettle =>
    exact ⟨_, (steps_perform hrun).decides.trans (steps_settle hsettle).decides, rfl,
      fun _ => retold_release _ _⟩

end Match
end HexDuel
