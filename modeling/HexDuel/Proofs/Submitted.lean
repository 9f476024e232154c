import HexDuel.Proofs.Asking

/-!
What becomes of a command, case by case: it is refused before it begins, it ends the turn, or it is
attempted; and an attempt is refused, waits for an answer, or is carried out.
-/

set_option autoImplicit false

namespace HexDuel

namespace Match

/-- The ends of an attempt. -/
inductive Attempted (depth : Nat) (m : Match) (player : Color) (resumption : Resumption)
    (chosen : List Choice) : Match → List Happening → Prop where
  | rejected (r : Rejection) {st : Stage} :
    (Attempt.perform (Play.runner depth) player resumption).run.run (m.scratch player chosen) =
      .ok (.error r, st) →
    Attempted depth m player resumption chosen (m.abandon player r) st.trace
  | refused (r : Rejection) {st : Stage} :
    (Attempt.perform (Play.runner depth) player resumption).run.run (m.scratch player chosen) =
      .ok (.ok (), st) →
    st.game.refusal = some r →
    Attempted depth m player resumption chosen (m.abandon player r) st.trace
  | suspended {st : Stage} :
    (Attempt.perform (Play.runner depth) player resumption).run.run (m.scratch player chosen) =
      .ok (.ok (), st) →
    st.game.refusal = none → (st.game.seat player).selection.choosing = true →
    Attempted depth m player resumption chosen
      (m.suspend player resumption (st.game.seat player).selection chosen) st.trace
  | carried {st st' : Stage} :
    (Attempt.perform (Play.runner depth) player resumption).run.run (m.scratch player chosen) =
      .ok (.ok (), st) →
    st.game.refusal = none → (st.game.seat player).selection.choosing = false →
    (Play.settle (Play.runner depth)).run st = .ok ((), st') →
    Attempted depth m player resumption chosen (st'.game.release player) st'.trace

theorem attempted {depth : Nat} {m m' : Match} {player : Color} {resumption : Resumption}
    {chosen : List Choice} {trace : List Happening}
    (h : m.attempt depth player resumption chosen = .ok (m', trace)) :
    Attempted depth m player resumption chosen m' trace := by
  unfold attempt at h
  cases hrun : (Attempt.perform (Play.runner depth) player resumption).run.run
      (m.scratch player chosen) with
  | error f =>
    simp only [hrun, bind, Except.bind] at h
    cases h
  | ok x =>
    obtain ⟨result, st⟩ := x
    simp only [hrun, bind, Except.bind] at h
    cases result with
    | error r =>
      cases h
      exact .rejected r hrun
    | ok =>
      cases hrefusal : st.game.refusal with
      | some r =>
        simp only [hrefusal] at h
        cases h
        exact .refused r hrun hrefusal
      | none =>
        simp only [hrefusal] at h
        split at h
        · rename_i hchoosing
          cases h
          exact .suspended hrun hrefusal hchoosing
        · rename_i hchoosing
          cases hsettle : (Play.settle (Play.runner depth)).run st with
          | error f => rw [hsettle] at h; cases h
          | ok y =>
            rw [hsettle] at h
            cases h
            exact .carried hrun hrefusal (by simpa using hchoosing) hsettle

theorem ran_of_endOfTurn {depth : Nat} {m m' : Match} {trace : List Happening}
    (h : m.endOfTurn depth = .ok (m', trace)) :
    ∃ st, (do
      Play.passTurn (Play.runner depth)
      Play.settle (Play.runner depth) : Play Unit).run ⟨m, []⟩ = .ok ((), st) ∧
      (m', trace) = (st.game, st.trace) := by
  unfold endOfTurn at h
  dsimp only at h
  cases hrun : (do
      Play.passTurn (Play.runner depth)
      Play.settle (Play.runner depth) : Play Unit).run ⟨m, []⟩ with
  | error f => rw [hrun] at h; cases h
  | ok x =>
    rw [hrun] at h
    cases h
    exact ⟨_, rfl, rfl⟩

/-- The ends of a command. -/
inductive Submitted (depth : Nat) (m : Match) (c : Command) : Match → List Happening → Prop where
  | early (r : Rejection) : r.isLate = false →
    Submitted depth m c (m.reject c.player r) []
  | started {resumption : Resumption} {m' : Match} {trace : List Happening} :
    m.isOver = false → m.pending = none → c.player = m.turn → c.resumption? = some resumption →
    Attempted depth m c.player resumption [] m' trace → Submitted depth m c m' trace
  | answered {prompt : Prompt} {x : Choice} {m' : Match} {trace : List Happening} :
    m.isOver = false → m.pending = some prompt → prompt.player = c.player →
    c = .chooseTarget c.player x → (m.seat c.player).selection.allows x = true →
    Attempted depth m c.player prompt.resumption ((m.seat c.player).selection.chosen ++ [x])
      m' trace → Submitted depth m c m' trace
  | passed {st : Stage} :
    m.isOver = false → m.pending = none → c.player = m.turn → c = .passTurn c.player →
    (do Play.passTurn (Play.runner depth); Play.settle (Play.runner depth) : Play Unit).run
      ⟨m, []⟩ = .ok ((), st) → Submitted depth m c st.game st.trace

theorem submitted {depth : Nat} {m m' : Match} {c : Command} {trace : List Happening}
    (h : m.submitTraced depth c = .ok (m', trace)) : Submitted depth m.heard c m' trace := by
  unfold submitTraced at h
  dsimp only at h
  split at h
  · cases h
    exact .early .gameOver rfl
  · rename_i hover
    have hover : m.heard.isOver = false := by simpa using hover
    split at h
    · rename_i player x
      split at h
      · cases h
        exact .early .nothingToChoose rfl
      · rename_i prompt hprompt
        split at h
        · cases h
          exact .early .notYourTurn rfl
        · rename_i hplayer
          split at h
          · cases h
            exact .early .illegalTarget rfl
          · rename_i hallows
            refine .answered hover hprompt (by simpa using hplayer) rfl ?_ (attempted h)
            simpa using hallows
    · rename_i hchoose
      split at h
      · cases h
        exact .early .selectionPending rfl
      · rename_i hpending
        split at h
        · cases h
          exact .early .notYourTurn rfl
        · rename_i hturn
          have hpending : m.heard.pending = none := by simpa using hpending
          have hturn : c.player = m.heard.turn := by simpa using hturn
          split at h
          · rename_i resumption hresumption
            exact .started hover hpending hturn hresumption (attempted h)
          · rename_i hresumption
            have hpass : c = .passTurn c.player := by
              cases c with
              | passTurn => rfl
              | chooseTarget player x => exact (hchoose player x rfl).elim
              | _ => cases hresumption
            obtain ⟨st, hrun, hend⟩ := ran_of_endOfTurn h
            cases hend
            exact .passed hover hpending hturn hpass hrun

end Match
end HexDuel
