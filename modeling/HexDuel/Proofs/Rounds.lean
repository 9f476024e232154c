import HexDuel.Proofs.Dialogue
import HexDuel.Proofs.History
import HexDuel.Proofs.Turns
import HexDuel.SelfPlay

/-!
Matches that play themselves, round by round. A round ends the match, or it ends with a pass. The
pass is taken and begins another turn unless a prompt is left over from the round; then it is
refused and nothing comes of it. So the rounds come to an end as long as no round leaves a prompt,
and they never do once a prompt is left to which the policy has no answer that is taken.
-/

set_option autoImplicit false

namespace HexDuel

/-! ### The end of a turn -/

/-- Turns that have begun remain. -/
theorem turns_length_le {earlier later : List Happening} (h : earlier <:+ later)
    (past : List Happening) :
    (turns (earlier ++ past)).length ≤ (turns (later ++ past)).length := by
  obtain ⟨between, rfl⟩ := h
  simp only [turns, List.filterMap_append, List.length_append]
  omega

namespace Match
variable {depth : Nat} {m m' : Match} {c : Command} {trace past : List Happening}

/-- Who passes while nobody has won and nothing is asked is heard. -/
theorem submitTraced_pass (hover : m.isOver = false) (hpending : m.pending = none) (depth : Nat) :
    m.submitTraced depth (.passTurn m.turn) = m.heard.endOfTurn depth := by
  have hover : m.heard.isOver = false := hover
  have hpending : m.heard.pending.isSome = false := congrArg Option.isSome hpending
  unfold submitTraced
  simp only [hover, hpending, Bool.false_eq_true, if_false]
  rw [if_neg fun hturn => hturn rfl]
  rfl

/-- The pass is not refused, and unless the match is decided by then another turn begins. -/
theorem Reachable.passes (hm : m.Reachable) (hover : m.isOver = false) (hpending : m.pending = none)
    (h : m.submitTraced depth (.passTurn m.turn) = .ok (m', trace)) :
    m'.Accepted ∧ (m'.isOver = true ∨ m.turnNumber < m'.turnNumber) := by
  have hsubmit := h
  rw [submitTraced_pass hover hpending] at h
  obtain ⟨st, hrun, hend⟩ := ran_of_endOfTurn h
  cases hend
  have hsteps := steps_endOfTurn hrun
  have haccepted : st.game.Accepted := ⟨hsteps.refusal_eq, hsteps.pending.trans hpending⟩
  refine ⟨haccepted, ?_⟩
  obtain ⟨_, s₁, hpass, hsettle⟩ := Play.run_bind hrun
  obtain ⟨ended, begun, hended, -, hbegins, hconduct⟩ :=
    Play.passed_of_run (Play.goes_runner depth) (Play.built_runner false depth) hpass
  have hrest : Deeds begun st := (hconduct.trans (conduct_settle hsettle)).act.deeds
  obtain ⟨rfl, hdecided⟩ | ⟨-, -, hbegan⟩ := hbegins.handedOver
  · obtain ⟨w, hw⟩ := Option.isSome_iff_exists.1 hdecided
    exact .inl (Option.isSome_iff_exists.2 ⟨w, hrest.winner hw⟩)
  · obtain ⟨past, hpast⟩ := hm.chronicle
    have hbefore := turns_length_le (List.nil_suffix (l := ended.trace)) past
    have hafter := turns_length_le hrest.steps.trace_suffix past
    rw [hbegan] at hafter
    rw [hpast.turns_accounted.1, (hpast.done hsubmit haccepted).turns_accounted.1]
    exact .inr (Nat.lt_of_lt_of_le (Nat.lt_succ_of_le hbefore) hafter)

/-- Who passes while an answer is awaited is refused. -/
theorem submitTraced_pass_pending (hover : m.isOver = false) (hpending : m.pending.isSome = true)
    (depth : Nat) (c : Color) :
    m.submitTraced depth (.passTurn c) = .ok (m.reject c .selectionPending, []) := by
  have hover : m.heard.isOver = false := hover
  have hpending : m.heard.pending.isSome = true := hpending
  unfold submitTraced
  simp only [hover, hpending, Bool.false_eq_true, if_false, if_true]
  rfl

end Match

/-! ### Rounds -/

namespace SelfPlay
open Match

/-- One command after the other leads from the one match to the other, and none of them is
refused. -/
inductive Accepts : Match → List Command → Match → Prop where
  | nil (m : Match) : Accepts m [] m
  | cons {m m' m'' : Match} {c : Command} {cs : List Command} : m.submit c = .ok m' →
    m'.refusal = none → Accepts m' cs m'' → Accepts m (c :: cs) m''

/-- The rounds go on: nobody has won, and not too many turns have begun. -/
def Record.GoesOn (maxTurns : Nat) (r : Record) : Prop :=
  r.game.isOver = false ∧ r.game.turnNumber ≤ maxTurns

/-- A round leads from the one record to the other. -/
inductive Record.Round (r : Record) : Record → Prop where
  | won {m : Match} {cs : List Command} : steps maxCommandsPerTurn r.game = .ok (m, cs) →
    m.isOver = true → Round r ⟨m, r.commands ++ cs⟩
  | passed {m next : Match} {cs : List Command} : steps maxCommandsPerTurn r.game = .ok (m, cs) →
    m.isOver = false → m.submit (.passTurn m.turn) = .ok next →
    Round r ⟨next, r.commands ++ cs ++ [.passTurn m.turn]⟩

/-- The round fails, as one of its commands or what they are chosen from does. -/
inductive Record.Fails (r : Record) (f : Fault) : Prop where
  | steps : steps maxCommandsPerTurn r.game = .error f → Fails r f
  | pass {m : Match} {cs : List Command} : SelfPlay.steps maxCommandsPerTurn r.game = .ok (m, cs) →
    m.isOver = false → m.submit (.passTurn m.turn) = .error f → Fails r f

/-- A prompt is left over when the round comes to its pass. -/
inductive Record.Dangles (r : Record) : Prop where
  | left {m : Match} {cs : List Command} : steps maxCommandsPerTurn r.game = .ok (m, cs) →
    m.isOver = false → m.pending.isSome = true → Dangles r

/-- What a match has come to after that many rounds. -/
inductive Played (s : MatchSetup) (maxTurns : Nat) : Nat → Record → Prop where
  | start {m : Match} : s.start = .ok m → Played s maxTurns 0 ⟨m, []⟩
  | next {n : Nat} {r r' : Record} : Played s maxTurns n r → r.GoesOn maxTurns → r.Round r' →
    Played s maxTurns (n + 1) r'

variable {m m' m'' : Match} {c : Command} {cs cs' : List Command} {r r' : Record}
  {s : MatchSetup} {maxTurns n : Nat}

namespace Accepts

theorem trans (h : Accepts m cs m') (h' : Accepts m' cs' m'') : Accepts m (cs ++ cs') m'' := by
  induction h with
  | nil => exact h'
  | cons hsubmit hnone _ ih => exact .cons hsubmit hnone (ih h')

theorem single (h : m.submit c = .ok m') (hnone : m'.refusal = none) : Accepts m [c] m' :=
  .cons h hnone (.nil m')

theorem reachable (h : Accepts m cs m') (hm : m.Reachable) : m'.Reachable := by
  induction h with
  | nil => exact hm
  | cons hsubmit _ _ ih => exact ih (hm.submit hsubmit)

end Accepts

theorem submitTraced_of_submit (h : m.submit c = .ok m') :
    ∃ trace, m.submitTraced maxDepth c = .ok (m', trace) := by
  unfold submit at h
  cases hs : m.submitTraced maxDepth c with
  | error f => rw [hs] at h; cases h
  | ok x =>
    rw [hs] at h
    cases h
    exact ⟨_, rfl⟩

theorem Accepts.turnNumber_le (h : Accepts m cs m') : m.turnNumber ≤ m'.turnNumber := by
  induction h with
  | nil => exact Nat.le_refl _
  | cons hsubmit _ _ ih =>
    obtain ⟨trace, htraced⟩ := submitTraced_of_submit hsubmit
    have hfirst := (lasting_continues _).submitTraced htraced (.refl _)
    exact Nat.le_trans hfirst.turnNumber ih

theorem accepts_of_tryEach (h : tryEach m cs = .ok (some (m', c))) : Accepts m [c] m' := by
  induction cs with
  | nil => cases h
  | cons d ds ih =>
    unfold tryEach at h
    cases hsubmit : m.submit d with
    | error f => rw [hsubmit] at h; cases h
    | ok next =>
      rw [hsubmit] at h
      cases hnone : next.refusal with
      | none =>
        simp only [bind, Except.bind, hnone, Option.isNone_none, if_true] at h
        cases h
        exact .single hsubmit hnone
      | some =>
        simp only [bind, Except.bind, hnone, Option.isNone_some, Bool.false_eq_true, if_false] at h
        exact ih h

theorem accepts_of_step (h : step m = .ok (some (m', c))) : Accepts m [c] m' := by
  unfold step at h
  cases hcs : candidates m with
  | error f => rw [hcs] at h; cases h
  | ok cs =>
    rw [hcs] at h
    exact accepts_of_tryEach h

/-- Of the policy's commands only those are kept that are not refused. -/
theorem accepts_of_steps (h : steps n m = .ok (m', cs)) : Accepts m cs m' := by
  induction n generalizing m cs with
  | zero =>
    cases h
    exact .nil _
  | succ n ih =>
    unfold steps at h
    cases hstep : step m with
    | error f => rw [hstep] at h; cases h
    | ok x =>
      rw [hstep] at h
      cases x with
      | none =>
        cases h
        exact .nil _
      | some y =>
        obtain ⟨next, c⟩ := y
        have hfirst := accepts_of_step hstep
        simp only [bind, Except.bind] at h
        split at h
        · cases h
          exact hfirst
        · cases hrest : steps n next with
          | error f => rw [hrest] at h; cases h
          | ok z =>
            rw [hrest] at h
            cases h
            exact hfirst.trans (ih hrest)

/-- What is left over decides whether the pass is taken. -/
theorem pass_of_round (hm : m.Reachable) (hover : m.isOver = false)
    (h : m.submit (.passTurn m.turn) = .ok m') :
    (m.pending = none → m'.refusal = none ∧ (m'.isOver = true ∨ m.turnNumber < m'.turnNumber)) ∧
    (m.pending ≠ none → m' = m.reject m.turn .selectionPending) := by
  obtain ⟨trace, htraced⟩ := submitTraced_of_submit h
  refine ⟨fun hpending => ?_, fun hpending => ?_⟩
  · obtain ⟨haccepted, hnext⟩ := hm.passes hover hpending htraced
    exact ⟨haccepted.1, hnext⟩
  · rw [submitTraced_pass_pending hover (Option.isSome_iff_ne_none.2 hpending)] at htraced
    cases htraced
    rfl

/-! ### The rounds as they are played -/

theorem Record.round_or_fails (r : Record) : (∃ r', r.Round r') ∨ ∃ f, r.Fails f := by
  cases hsteps : steps maxCommandsPerTurn r.game with
  | error f => exact .inr ⟨f, .steps hsteps⟩
  | ok x =>
    obtain ⟨m, cs⟩ := x
    cases hover : m.isOver with
    | true => exact .inl ⟨_, .won hsteps hover⟩
    | false =>
      cases hpass : m.submit (.passTurn m.turn) with
      | error f => exact .inr ⟨f, .pass hsteps hover hpass⟩
      | ok next => exact .inl ⟨_, .passed hsteps hover hpass⟩

theorem Record.Round.reachable (h : r.Round r') (hm : r.game.Reachable) : r'.game.Reachable := by
  cases h with
  | won hsteps => exact (accepts_of_steps hsteps).reachable hm
  | passed hsteps _ hpass => exact ((accepts_of_steps hsteps).reachable hm).submit hpass

theorem Played.reachable (h : Played s maxTurns n r) : r.game.Reachable := by
  induction h with
  | start h => exact .start h
  | next _ _ hround ih => exact hround.reachable ih

theorem Record.not_goesOn_iff :
    ¬ r.GoesOn maxTurns ↔ (r.game.isOver || decide (maxTurns < r.game.turnNumber)) = true := by
  rw [GoesOn, Bool.or_eq_true, decide_eq_true_iff, not_and_or, Bool.not_eq_false, Nat.not_le]

theorem playRounds_of_not_goesOn (h : ¬ r.GoesOn maxTurns) (k : Nat) :
    playRounds maxTurns k r = .ok r := by
  cases k <;> (unfold playRounds; rw [if_pos (Record.not_goesOn_iff.1 h)])

theorem playRounds_zero (hgoes : r.GoesOn maxTurns) :
    playRounds maxTurns 0 r = .error .exhausted := by
  rw [playRounds, if_neg fun hends => Record.not_goesOn_iff.2 hends hgoes]

theorem playRounds_of_round (hgoes : r.GoesOn maxTurns) (h : r.Round r') (k : Nat) :
    playRounds maxTurns (k + 1) r = playRounds maxTurns k r' := by
  rw [playRounds, if_neg fun hends => Record.not_goesOn_iff.2 hends hgoes]
  cases h with
  | @won m cs hsteps hover =>
    have hends : ¬ Record.GoesOn maxTurns ⟨m, r.commands ++ cs⟩ := fun hgoes =>
      Bool.eq_false_iff.1 hgoes.1 hover
    rw [hsteps, playRounds_of_not_goesOn hends]
    simp only [bind, Except.bind, hover, if_true]
    rfl
  | passed hsteps hover hpass =>
    rw [hsteps]
    simp only [bind, Except.bind, hover, hpass, Bool.false_eq_true, if_false]

theorem playRounds_of_fails {f : Fault} (hgoes : r.GoesOn maxTurns) (h : r.Fails f) (k : Nat) :
    playRounds maxTurns (k + 1) r = .error f := by
  rw [playRounds, if_neg fun hends => Record.not_goesOn_iff.2 hends hgoes]
  cases h with
  | steps hsteps =>
    rw [hsteps]
    rfl
  | pass hsteps hover hpass =>
    rw [hsteps]
    simp only [bind, Except.bind, hover, hpass, Bool.false_eq_true, if_false]

/-- A round that leaves no prompt ends the match or goes on to another turn, and all its commands
are taken. -/
theorem Record.Round.progress (h : r.Round r') (hm : r.game.Reachable) (hclean : ¬ r.Dangles) :
    (∃ cs, r'.commands = r.commands ++ cs ∧ Accepts r.game cs r'.game) ∧
    (r'.game.isOver = true ∨ r.game.turnNumber < r'.game.turnNumber) := by
  cases h with
  | @won m cs hsteps hover => exact ⟨⟨cs, rfl, accepts_of_steps hsteps⟩, .inl hover⟩
  | @passed m next cs hsteps hover hpass =>
    have haccepts := accepts_of_steps hsteps
    have hnone : m.pending = none := by
      cases hpending : m.pending with
      | none => rfl
      | some p => exact absurd (.left hsteps hover (by rw [hpending]; rfl)) hclean
    obtain ⟨hrefusal, hnext⟩ := (pass_of_round (haccepts.reachable hm) hover hpass).1 hnone
    refine ⟨⟨cs ++ [.passTurn m.turn], List.append_assoc _ _ _,
      haccepts.trans (.single hpass hrefusal)⟩, ?_⟩
    exact hnext.imp_right (Nat.lt_of_le_of_lt haccepts.turnNumber_le)

section Clean
variable (hclean : ∀ n r, Played s maxTurns n r → r.GoesOn maxTurns → ¬ r.Dangles)
include hclean

theorem Played.accepts (hstart : s.start = .ok m) (h : Played s maxTurns n r) :
    Accepts m r.commands r.game := by
  induction h with
  | start h =>
    cases hstart.symm.trans h
    exact .nil m
  | next h hgoes hround ih =>
    obtain ⟨⟨cs, hcommands, hcs⟩, -⟩ := hround.progress h.reachable (hclean _ _ h hgoes)
    rw [hcommands]
    exact ih.trans hcs

/-- Every round has begun a turn. -/
theorem Played.lt_turnNumber (h : Played s maxTurns n r) (hover : r.game.isOver = false) :
    n < r.game.turnNumber := by
  induction h with
  | start h =>
    have hnumber : _ = 1 := congrArg (·.1.1.turnNumber) (MatchSetup.bearing_start h)
    exact Nat.lt_of_lt_of_eq Nat.zero_lt_one hnumber.symm
  | next h hgoes hround ih =>
    obtain ⟨-, hended | hlater⟩ := hround.progress h.reachable (hclean _ _ h hgoes)
    · cases hover.symm.trans hended
    · exact Nat.lt_of_le_of_lt (ih hgoes.1) hlater

theorem Played.le_maxTurns (h : Played s maxTurns n r) : n ≤ maxTurns := by
  cases h with
  | start => exact Nat.zero_le _
  | next h hgoes =>
    exact Nat.le_trans (h.lt_turnNumber hclean hgoes.1) hgoes.2

omit hclean in
theorem play_eq (h : Played s maxTurns n r) (hn : n ≤ maxRounds maxTurns) :
    play s maxTurns = playRounds maxTurns (maxRounds maxTurns - n) r := by
  induction h with
  | start h =>
    unfold play
    rw [h]
    rfl
  | @next n _ _ _ hgoes hround ih =>
    have hfuel : maxRounds maxTurns - n = (maxRounds maxTurns - (n + 1)) + 1 := by omega
    rw [ih (by omega), hfuel, playRounds_of_round hgoes hround]

/-- From any record on, the rounds come to an end, or one of them fails. -/
theorem Played.ends (h : Played s maxTurns n r) :
    (∃ n r f, Played s maxTurns n r ∧ r.GoesOn maxTurns ∧ r.Fails f ∧
      play s maxTurns = .error f) ∨
    ∃ n r, n ≤ maxTurns ∧ Played s maxTurns n r ∧ ¬ r.GoesOn maxTurns ∧
      play s maxTurns = .ok r := by
  -- on the rounds that are left
  induction hleft : maxTurns - n using Nat.strongRecOn generalizing n r with
  | ind left ih =>
    have hn := h.le_maxTurns hclean
    have hfuel : n < maxRounds maxTurns := by
      unfold maxRounds
      omega
    have hplay := play_eq h (Nat.le_of_lt hfuel)
    by_cases hgoes : r.GoesOn maxTurns
    · obtain ⟨r', hround⟩ | ⟨f, hfails⟩ := r.round_or_fails
      · have hlater := h.next hgoes hround
        have hlast := hlater.le_maxTurns hclean
        exact ih _ (by omega) hlater rfl
      · obtain ⟨k, hk⟩ := Nat.exists_eq_succ_of_ne_zero (Nat.sub_ne_zero_of_lt hfuel)
        rw [hk, playRounds_of_fails hgoes hfails] at hplay
        exact .inl ⟨n, r, f, h, hgoes, hfails, hplay⟩
    · rw [playRounds_of_not_goesOn hgoes] at hplay
      exact .inr ⟨n, r, hn, h, hgoes, hplay⟩

end Clean

/-! ### Rounds without end -/

/-- A prompt to which the policy has no answer that is taken. -/
structure Stuck (m : Match) : Prop where
  pending : m.pending.isSome = true
  step : step m = .ok none

theorem tryEach_alike (h : m.muted = m'.muted) (hnone : tryEach m cs = .ok none) :
    tryEach m' cs = .ok none := by
  induction cs with
  | nil => rfl
  | cons c cs ih =>
    have hsubmit : Outcome.Agree (Likeness.Ends fun m m' => m.hush = m'.hush)
        (m.submitTraced maxDepth c) (m'.submitTraced maxDepth c) := likeness_hush.submitTraced h c
    unfold tryEach submit at hnone ⊢
    generalize m.submitTraced maxDepth c = x at hsubmit hnone
    generalize m'.submitTraced maxDepth c = y at hsubmit ⊢
    cases hsubmit with
    | error => cases hnone
    | @ok x y hends =>
      have hrefusal : y.1.refusal = x.1.refusal := likeness_hush.refusal hends.1
      simp only [Except.map, bind, Except.bind, hrefusal] at hnone ⊢
      split at hnone
      · cases hnone
      · rename_i hrefused
        rw [if_neg hrefused]
        exact ih hnone

theorem candidates_reject (h : m.pending.isSome = true) (player : Color) (x : Rejection) :
    candidates (m.reject player x) = candidates m := by
  obtain ⟨p, hp⟩ := Option.isSome_iff_exists.1 h
  have hp' : (m.reject player x).pending = some p := hp
  have hselection : ((m.reject player x).seat p.player).selection = (m.seat p.player).selection :=
    selection_setStatus m player p.player _
  unfold candidates answer
  rw [hp, hp']
  dsimp only
  rw [hselection]

theorem Stuck.reject (h : Stuck m) (player : Color) (x : Rejection) :
    Stuck (m.reject player x) := by
  refine ⟨h.pending, ?_⟩
  have hstep := h.step
  unfold SelfPlay.step at hstep ⊢
  rw [candidates_reject h.pending]
  cases hcs : candidates m with
  | error f => rw [hcs] at hstep; cases hstep
  | ok cs =>
    rw [hcs] at hstep
    exact tryEach_alike (muted_reject m player x).symm hstep

/-- Nothing comes of the round but a refusal. -/
theorem Stuck.round (h : Stuck r.game) (hover : r.game.isOver = false) :
    r.Round ⟨r.game.reject r.game.turn .selectionPending,
      r.commands ++ [] ++ [.passTurn r.game.turn]⟩ := by
  have hsteps : steps maxCommandsPerTurn r.game = .ok (r.game, []) := by
    rw [maxCommandsPerTurn, steps, h.step]
    rfl
  refine .passed hsteps hover ?_
  rw [submit, submitTraced_pass_pending hover h.pending]
  rfl

/-- Once stuck, the rounds go on for ever in the same turn. -/
theorem Played.never_ends (h : Played s maxTurns n r) (hgoes : r.GoesOn maxTurns)
    (hstuck : Stuck r.game) (k : Nat) :
    playRounds maxTurns k r = .error .exhausted ∧
    ∃ r', Played s maxTurns (n + k) r' ∧ r'.GoesOn maxTurns ∧
      r'.game.turnNumber = r.game.turnNumber := by
  induction k generalizing n r with
  | zero => exact ⟨playRounds_zero hgoes, r, h, hgoes, rfl⟩
  | succ k ih =>
    have hround := hstuck.round hgoes.1
    obtain ⟨hexhausted, r', hplayed, hgoes', hnumber⟩ :=
      ih (h.next hgoes hround) hgoes (hstuck.reject _ _)
    refine ⟨(playRounds_of_round hgoes hround k).trans hexhausted, r', ?_, hgoes', hnumber⟩
    rwa [Nat.add_right_comm] at hplayed

/-- A round keeps what is not refused. It ends the match, or it ends with a pass, which is refused
exactly when a prompt is left over, and which otherwise begins another turn or decides the match. As
long as no round leaves a prompt, the rounds come to an end, at most one for each turn, and all that
is recorded has been taken, or a round fails. When there is a prompt to which the policy has no
answer that is taken, there is no end to them. -/
theorem play_progresses (hstart : s.start = .ok m) (maxTurns : Nat) :
    (∀ n r, Played s maxTurns n r → r.GoesOn maxTurns →
      ∀ last cs, steps maxCommandsPerTurn r.game = .ok (last, cs) →
        Accepts r.game cs last ∧ r.game.turnNumber ≤ last.turnNumber ∧
        (last.isOver = false → ∀ next, last.submit (.passTurn last.turn) = .ok next →
          (last.pending = none → next.refusal = none ∧
            (next.isOver = true ∨ last.turnNumber < next.turnNumber)) ∧
          (last.pending ≠ none → next = last.reject last.turn .selectionPending))) ∧
    ((∀ n r, Played s maxTurns n r → r.GoesOn maxTurns → ¬ r.Dangles) →
      (∃ n r f, Played s maxTurns n r ∧ r.GoesOn maxTurns ∧ r.Fails f ∧
        play s maxTurns = .error f) ∨
      ∃ n r, n ≤ maxTurns ∧ Played s maxTurns n r ∧ ¬ r.GoesOn maxTurns ∧
        play s maxTurns = .ok r ∧ Accepts m r.commands r.game) ∧
    ∀ n r, Played s maxTurns n r → r.GoesOn maxTurns → Stuck r.game →
      ∀ k, playRounds maxTurns k r = .error .exhausted ∧
        ∃ r', Played s maxTurns (n + k) r' ∧ r'.GoesOn maxTurns ∧
          r'.game.turnNumber = r.game.turnNumber := by
  refine ⟨fun n r h _ last cs hsteps => ?_, fun hclean => ?_, fun n r => Played.never_ends⟩
  · have haccepts := accepts_of_steps hsteps
    have hlast := haccepts.reachable h.reachable
    exact ⟨haccepts, haccepts.turnNumber_le, fun hover next hpass =>
      pass_of_round hlast hover hpass⟩
  · refine (Played.ends hclean (.start hstart)).imp_right ?_
    rintro ⟨n, r, hn, h, hends, hplay⟩
    exact ⟨n, r, hn, h, hends, hplay, h.accepts hclean hstart⟩

/-- Blue plays the card and passes, and with that one turn is over. -/
theorem play_progresses_solo :
    ∃ (m : Match) (r : Record), (MatchSetup.solo []).start = .ok m ∧
      (∀ n r, Played (MatchSetup.solo []) 1 n r → r.GoesOn 1 → ¬ r.Dangles) ∧
      play (MatchSetup.solo []) 1 = .ok r ∧ r.game.turnNumber = 2 ∧
      r.commands = [.playSolo, .passTurn .blue] ∧ Accepts m r.commands r.game := by
  have hrun : ((MatchSetup.solo []).start.holds fun m =>
      (!m.isOver && decide (m.turnNumber ≤ 1)) &&
      (steps maxCommandsPerTurn m).holds fun x =>
        (!x.1.isOver && x.1.pending.isNone && decide (x.1.turn = .blue) &&
          decide (x.2 = [.playSolo])) &&
        (x.1.submit (.passTurn x.1.turn)).holds fun next =>
          decide (next.turnNumber = 2)) = true := by
    decide +kernel
  obtain ⟨m, hstart, hrun⟩ := Outcome.exists_of_holds hrun
  obtain ⟨hm, hrun⟩ := Bool.and_eq_true_iff.1 hrun
  obtain ⟨⟨last, cs⟩, hsteps, hrun⟩ := Outcome.exists_of_holds hrun
  obtain ⟨hlast, hrun⟩ := Bool.and_eq_true_iff.1 hrun
  obtain ⟨next, hpass, hnumber⟩ := Outcome.exists_of_holds hrun
  simp only [Bool.and_eq_true, Bool.not_eq_true', Option.isNone_iff_eq_none,
    decide_eq_true_eq] at hm hlast hnumber
  obtain ⟨⟨⟨hover, hnone⟩, hturn⟩, rfl⟩ := hlast
  have hfirst : ∀ n r, Played (MatchSetup.solo []) 1 n r → r.GoesOn 1 → r = ⟨m, []⟩ := by
    intro n r h hgoes
    induction h with
    | start h =>
      cases hstart.symm.trans h
      rfl
    | next _ hbefore hround ih =>
      obtain rfl := ih hbefore
      cases hround with
      | won hsteps' hwon =>
        cases hsteps.symm.trans hsteps'
        cases hover.symm.trans hwon
      | passed hsteps' _ hpass' =>
        cases hsteps.symm.trans hsteps'
        cases hpass.symm.trans hpass'
        have hle : next.turnNumber ≤ 1 := hgoes.2
        omega
  have hclean : ∀ n r, Played (MatchSetup.solo []) 1 n r → r.GoesOn 1 → ¬ r.Dangles := by
    intro n r h hgoes hdangles
    obtain rfl := hfirst n r h hgoes
    obtain ⟨hsteps', -, hpending⟩ := hdangles
    cases hsteps.symm.trans hsteps'
    rw [hnone] at hpending
    cases hpending
  obtain ⟨n, r, f, h, hgoes, hfails, -⟩ | ⟨n, r, -, -, -, hplay, haccepts⟩ :=
    (play_progresses hstart 1).2.1 hclean
  · obtain rfl := hfirst n r h hgoes
    cases hfails with
    | steps hsteps' => cases hsteps.symm.trans hsteps'
    | pass hsteps' _ hpass' =>
      cases hsteps.symm.trans hsteps'
      cases hpass.symm.trans hpass'
  · have hgoes : Record.GoesOn 1 ⟨m, []⟩ := hm
    have hplayed := (Played.start hstart).next hgoes (.passed hsteps hover hpass)
    have hends : ¬ Record.GoesOn 1 ⟨next, [] ++ [.playSolo] ++ [.passTurn last.turn]⟩ := by
      intro hgoes
      have hle : next.turnNumber ≤ 1 := hgoes.2
      omega
    have hsame := (play_eq hplayed (by decide)).trans (playRounds_of_not_goesOn hends _)
    cases hplay.symm.trans hsame
    refine ⟨m, _, hstart, hclean, hplay, hnumber, ?_, haccepts⟩
    rw [hturn]
    rfl

/-- Blue's card asks for two targets, and there is none for the second. The answer to the first
prompt is refused each time, and so is each pass. -/
theorem rounds_without_end :
    ∃ (s : MatchSetup) (m : Match) (r : Record), s.start = .ok m ∧ Played s 1 1 r ∧
      r.commands = [.playSolo, .passTurn .blue] ∧
      r.game.refusal = some .selectionPending ∧ r.game.turnNumber = 1 ∧
      play s 1 = .error .exhausted ∧
      ∀ k, playRounds 1 k r = .error .exhausted ∧
        ∃ r', Played s 1 (1 + k) r' ∧ r'.GoesOn 1 ∧ r'.game.turnNumber = 1 := by
  let s := MatchSetup.solo [.dealDamage (.choose (.piecesInPlay .any)) (.const 1),
    .dealDamage (.choose (.piecesInPlay (.only .robot))) (.const 1)]
  have hrun : (s.start.holds fun m =>
      (!m.isOver && decide (m.turnNumber = 1)) &&
      (steps maxCommandsPerTurn m).holds fun x =>
        (!x.1.isOver && decide (x.1.turn = .blue) && decide (x.2 = [.playSolo])) &&
        (x.1.submit (.passTurn x.1.turn)).holds fun next =>
          (!next.isOver && decide (next.turnNumber = 1) && next.pending.isSome &&
            decide (next.refusal = some .selectionPending)) &&
          (step next).holds (·.isNone)) = true := by
    decide +kernel
  obtain ⟨m, hstart, hrun⟩ := Outcome.exists_of_holds hrun
  obtain ⟨hm, hrun⟩ := Bool.and_eq_true_iff.1 hrun
  obtain ⟨⟨last, cs⟩, hsteps, hrun⟩ := Outcome.exists_of_holds hrun
  obtain ⟨hlast, hrun⟩ := Bool.and_eq_true_iff.1 hrun
  obtain ⟨next, hpass, hrun⟩ := Outcome.exists_of_holds hrun
  obtain ⟨hnext, hstep⟩ := Bool.and_eq_true_iff.1 hrun
  obtain ⟨x, hstep, hnone⟩ := Outcome.exists_of_holds hstep
  simp only [Bool.and_eq_true, Bool.not_eq_true', Option.isNone_iff_eq_none,
    decide_eq_true_eq] at hm hlast hnext hnone
  obtain ⟨⟨hover, hturn⟩, rfl⟩ := hlast
  obtain ⟨⟨⟨hopen, hnumber⟩, hpending⟩, hrefusal⟩ := hnext
  subst hnone
  have hgoes : Record.GoesOn 1 ⟨m, []⟩ := ⟨hm.1, Nat.le_of_eq hm.2⟩
  have hplayed := (Played.start hstart).next hgoes (.passed hsteps hover hpass)
  have hends := hplayed.never_ends ⟨hopen, Nat.le_of_eq hnumber⟩ ⟨hpending, hstep⟩
  refine ⟨s, m, _, hstart, hplayed, ?_, hrefusal, hnumber, ?_, fun k => ?_⟩
  · rw [hturn]
    rfl
  · exact (play_eq hplayed (by decide)).trans (hends _).1
  · obtain ⟨hexhausted, r', hr', hgoes', hsame⟩ := hends k
    exact ⟨hexhausted, r', hr', hgoes', hsame.trans hnumber⟩

end SelfPlay
end HexDuel
