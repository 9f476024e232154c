import HexDuel.Proofs.Rounds
import HexDuel.Script

/-!
Matches that play themselves, played back. What the policy tries and drops leaves nothing behind, so
the recorded commands alone lead from the start to the same match again. A pass that was refused is
in the record, too, and is refused again when it is played back.
-/

set_option autoImplicit false

namespace HexDuel

namespace Replay
variable {r r' : Replay} {m m' : Match} {c : Command} {cs cs' : List Command}

theorem resume_cons (h : r.step c = .ok r') (index : Nat) (cs : List Command) :
    r.resume index (c :: cs) = r'.resume (index + 1) cs := by
  rw [resume, h]

/-- A script that goes on takes up where its beginning ends. -/
theorem resume_append {index : Nat} (h : r.resume index cs = .ok r') (cs' : List Command) :
    r.resume index (cs ++ cs') = r'.resume (index + cs.length) cs' := by
  induction cs generalizing r index with
  | nil =>
    cases h
    rfl
  | cons c cs ih =>
    cases hstep : r.step c with
    | error f =>
      rw [resume, hstep] at h
      cases h
    | ok next =>
      rw [resume_cons hstep] at h
      rw [List.cons_append, resume_cons hstep, ih h, List.length_cons, Nat.add_right_comm,
        Nat.add_assoc]

theorem step_of_accepted (h : m.submit c = .ok m') (hnone : m'.refusal = none) (refused : Nat) :
    (⟨m, refused⟩ : Replay).step c = .ok ⟨m', refused⟩ := by
  unfold step
  dsimp only
  rw [h]
  simp only [bind, Except.bind, hnone, Option.isSome_none, Bool.false_eq_true, if_false]
  rfl

theorem step_of_refused {x : Rejection} (h : m.submit c = .ok m') (hsome : m'.refusal = some x)
    (refused : Nat) : (⟨m, refused⟩ : Replay).step c = .ok ⟨m', refused + 1⟩ := by
  unfold step
  dsimp only
  rw [h]
  simp only [bind, Except.bind, hsome, Option.isSome_some, if_true]
  rfl

end Replay

namespace SelfPlay
open Match

variable {s : MatchSetup} {m m' : Match} {cs : List Command} {r r' : Record} {maxTurns n : Nat}

/-- Commands that were taken are taken again. -/
theorem Accepts.resume (h : Accepts m cs m') (index refused : Nat) :
    (⟨m, refused⟩ : Replay).resume index cs = .ok ⟨m', refused⟩ := by
  induction h generalizing index with
  | nil => rfl
  | cons hsubmit hnone _ ih =>
    rw [Replay.resume_cons (Replay.step_of_accepted hsubmit hnone refused)]
    exact ih (index + 1)

/-- The recorded commands, played back from the start, lead to the match that the record has come to,
and so many of them are refused. -/
def Record.Retraces (s : MatchSetup) (r : Record) (refused : Nat) : Prop :=
  s.replay r.commands = .ok ⟨r.game, refused⟩

namespace Record.Retraces
variable {refused : Nat}

theorem start (h : s.start = .ok m) : Retraces s ⟨m, []⟩ 0 := by
  unfold Retraces MatchSetup.replay
  rw [h]
  rfl

/-- What follows is played back from the match that the record has come to. -/
theorem append {last : Replay} (h : r.Retraces s refused)
    (hrest : ∀ index, (⟨r.game, refused⟩ : Replay).resume index cs = .ok last) :
    s.replay (r.commands ++ cs) = .ok last := by
  unfold Retraces MatchSetup.replay at h
  unfold MatchSetup.replay
  cases hstart : s.start with
  | error f =>
    rw [hstart] at h
    cases h
  | ok m =>
    rw [hstart] at h
    exact (Replay.resume_append h cs).trans (hrest _)

theorem accepts (h : r.Retraces s refused) (hcs : Accepts r.game cs m) :
    Retraces s ⟨m, r.commands ++ cs⟩ refused :=
  h.append fun index => hcs.resume index refused

/-- At most the pass at the end of a round is refused, and that only when a prompt is left over. -/
theorem round (h : r.Retraces s refused) (hm : r.game.Reachable) (hround : r.Round r') :
    r'.Retraces s refused ∨ r.Dangles ∧ r'.Retraces s (refused + 1) := by
  cases hround with
  | won hsteps => exact .inl (h.accepts (accepts_of_steps hsteps))
  | @passed m next cs hsteps hover hpass =>
    have hcs := accepts_of_steps hsteps
    have hlast : Retraces s ⟨m, r.commands ++ cs⟩ refused := h.accepts hcs
    obtain ⟨htaken, hrefused⟩ := pass_of_round (hcs.reachable hm) hover hpass
    cases hpending : m.pending with
    | none => exact .inl (hlast.accepts (.single hpass (htaken hpending).1))
    | some p =>
      have hprompt : m.pending ≠ none := hpending ▸ Option.some_ne_none p
      have hsome : next.refusal = some .selectionPending := by
        rw [hrefused hprompt]
        rfl
      refine .inr ⟨.left hsteps hover (Option.isSome_iff_ne_none.2 hprompt), ?_⟩
      refine hlast.append fun index => ?_
      rw [Replay.resume_cons (Replay.step_of_refused hpass hsome refused)]
      rfl

end Record.Retraces

theorem Played.retraces (h : Played s maxTurns n r) :
    ∃ refused, r.Retraces s refused ∧ refused ≤ n ∧
      ((∀ n r, Played s maxTurns n r → r.GoesOn maxTurns → ¬ r.Dangles) → refused = 0) := by
  induction h with
  | start h => exact ⟨0, .start h, Nat.le_refl 0, fun _ => rfl⟩
  | next hplayed hgoes hround ih =>
    obtain ⟨refused, hretraces, hle, hclean⟩ := ih
    obtain hsame | ⟨hdangles, hmore⟩ := hretraces.round hplayed.reachable hround
    · exact ⟨refused, hsame, Nat.le_succ_of_le hle, hclean⟩
    · exact ⟨refused + 1, hmore, Nat.succ_le_succ hle,
        fun hnone => absurd hdangles (hnone _ _ hplayed hgoes)⟩

/-- What the rounds come to is what some number of them has come to. -/
theorem Played.of_playRounds {rounds : Nat} (h : Played s maxTurns n r)
    (hplay : playRounds maxTurns rounds r = .ok r') :
    ∃ n, Played s maxTurns n r' ∧ ¬ r'.GoesOn maxTurns := by
  induction rounds generalizing n r with
  | zero =>
    by_cases hgoes : r.GoesOn maxTurns
    · rw [playRounds_zero hgoes] at hplay
      cases hplay
    · rw [playRounds_of_not_goesOn hgoes] at hplay
      cases hplay
      exact ⟨n, h, hgoes⟩
  | succ rounds ih =>
    by_cases hgoes : r.GoesOn maxTurns
    · obtain ⟨next, hround⟩ | ⟨f, hfails⟩ := r.round_or_fails
      · rw [playRounds_of_round hgoes hround] at hplay
        exact ih (h.next hgoes hround) hplay
      · rw [playRounds_of_fails hgoes hfails] at hplay
        cases hplay
    · rw [playRounds_of_not_goesOn hgoes] at hplay
      cases hplay
      exact ⟨n, h, hgoes⟩

/-- A match that has played itself has come to its end by some number of rounds, and after any number
of rounds the commands recorded by then, played back from the same start, lead to the same match.
None of them is refused unless some round has left a prompt, and at most one in each round. -/
theorem play_replays (s : MatchSetup) (maxTurns : Nat) (r : Record) :
    (play s maxTurns = .ok r → ∃ n, Played s maxTurns n r ∧ ¬ r.GoesOn maxTurns) ∧
    ∀ n, Played s maxTurns n r → ∃ refused, s.replay r.commands = .ok ⟨r.game, refused⟩ ∧
      refused ≤ n ∧
      ((∀ n r, Played s maxTurns n r → r.GoesOn maxTurns → ¬ r.Dangles) → refused = 0) := by
  refine ⟨fun hplay => ?_, fun n h => h.retraces⟩
  unfold play at hplay
  cases hstart : s.start with
  | error f =>
    rw [hstart] at hplay
    cases hplay
  | ok m =>
    rw [hstart] at hplay
    exact Played.of_playRounds (.start hstart) hplay

/-- Blue's card draws an object at random and then asks for a target that there is not. The policy
tries it, drops it and passes; only the pass is in the record, which plays back to the same match. -/
theorem play_replays_dropped :
    ∃ (s : MatchSetup) (m tried : Match) (r : Record), s.start = .ok m ∧
      candidates m = .ok [.playSolo] ∧ m.submit .playSolo = .ok tried ∧
      tried.refusal = some .noValidTargets ∧ play s 1 = .ok r ∧
      r.commands = [.passTurn .blue] ∧ s.replay r.commands = .ok ⟨r.game, 0⟩ := by
  let s := MatchSetup.solo [.dealDamage (.random 1 (.piecesInPlay .any)) (.const 0),
    .dealDamage (.choose (.piecesInPlay (.only .robot))) (.const 1)]
  have hrun : (s.start.holds fun m =>
      ((candidates m).holds fun cs => decide (cs = [.playSolo])) &&
      ((m.submit .playSolo).holds fun tried =>
        decide (tried.refusal = some .noValidTargets)) &&
      (play s 1).holds fun r => decide (r.commands = [.passTurn .blue]) &&
        (s.replay r.commands).toOption.any fun back => decide (back.refused = 0)) = true := by
    decide +kernel
  obtain ⟨m, hstart, hrun⟩ := Outcome.exists_of_holds hrun
  simp only [Bool.and_eq_true] at hrun
  obtain ⟨⟨hcandidates, htried⟩, hplay⟩ := hrun
  obtain ⟨cs, hcs, hone⟩ := Outcome.exists_of_holds hcandidates
  obtain ⟨tried, hsubmit, hrefusal⟩ := Outcome.exists_of_holds htried
  obtain ⟨r, hplay, hrecord⟩ := Outcome.exists_of_holds hplay
  obtain ⟨hcommands, hback⟩ := Bool.and_eq_true_iff.1 hrecord
  obtain ⟨n, hplayed, -⟩ := (play_replays s 1 r).1 hplay
  obtain ⟨refused, hreplay, -⟩ := (play_replays s 1 r).2 n hplayed
  rw [hreplay] at hback
  obtain rfl : refused = 0 := of_decide_eq_true hback
  obtain rfl : cs = [.playSolo] := of_decide_eq_true hone
  exact ⟨s, m, tried, r, hstart, hcs, hsubmit, of_decide_eq_true hrefusal, hplay,
    of_decide_eq_true hcommands, hreplay⟩

end SelfPlay
end HexDuel
