import HexDuel.Proofs.ActsCommands
import HexDuel.Proofs.Shifts
import HexDuel.Proofs.Suspension

/-!
Prompts that nobody waits for. Targets are on offer only to a player whose command waits for an
answer, with one exception: an action that ends the turn hands it to the other player in the middle
of a resolution, and whatever asks for a target after that asks this player. The command is not this
player's, so it is carried out, and the prompt stays behind.
-/

set_option autoImplicit false

namespace HexDuel

/-! ### The player who is not to move -/

/-- Nothing is asked of the player who is not to move. -/
def Match.Idle (m : Match) : Prop := (m.seat m.turn.opponent).selection = .none

theorem Match.Idle.of_notices {m m' : Match} (h : m.Idle) (hsame : m'.notices = m.notices) :
    m'.Idle := by
  have hturn : m'.turn = m.turn := congrArg Notices.turn hsame
  unfold Match.Idle
  rw [hturn, ← selection_notices, hsame, selection_notices]
  exact h

theorem Shift.idle {s s' : Stage} (h : Shift s s') (hs : s.game.Idle) : s'.game.Idle := by
  have hother : s.game.turn.opponent ≠ s.game.turn := s.game.turn.opponent_ne
  cases h with
  | still h => exact hs.of_notices h.notices
  | consult _ hc =>
    cases hc with
    | waiting | refused => exact hs
    | answered | suspended => exact (Match.selection_setSelection_of_ne _ _ hother).trans hs
  | leave c =>
    unfold Match.Idle
    rw [Match.selection_setStatus]
    by_cases hc : s.game.turn.opponent = c
    · subst hc
      exact Match.selection_setSelection_self _ _ _
    · exact (Match.selection_setSelection_of_ne _ _ hc).trans hs
  | handOver c hnone => exact hnone
  | _ => exact hs.of_notices rfl

theorem Deeds.idle {s s' : Stage} (h : Deeds s s') (hs : s.game.Idle) : s'.game.Idle :=
  h.shifts.keeps (I := fun st => st.game.Idle) (fun _ _ => Shift.idle) hs

/-- Nothing has been named, and nothing is on offer unless there is a prompt. -/
def Selection.Unanswered (x : Selection) : Prop :=
  x.chosen = [] ∧ (x.choosing = false → x = .none)

theorem Selection.unanswered_none : none.Unanswered := ⟨rfl, fun _ => rfl⟩

theorem Resolving.unanswered_offer (b : Board) (c : Collection) : (offer b c).Unanswered :=
  ⟨chosen_offer b c, fun h => by rw [choosing_offer] at h; cases h⟩

theorem Selection.Unanswered.ne_none_iff {x : Selection} (h : x.Unanswered) :
    x ≠ .none ↔ x.choosing = true := by
  constructor
  · intro hne
    cases hchoosing : x.choosing with
    | true => rfl
    | false => exact absurd (h.2 hchoosing) hne
  · rintro hchoosing rfl
    cases hchoosing

variable {asks ends : Bool} {s s' : Stage}

theorem Step.unanswered {c : Color} (h : Step asks ends s s')
    (hs : (s.game.seat c).selection.Unanswered) : (s'.game.seat c).selection.Unanswered := by
  cases h with
  | edit hf => rwa [hf.silent.selection]
  | leave d =>
    rw [Match.selection_setStatus]
    by_cases hd : c = d
    · subst hd
      rw [Match.selection_setSelection_self]
      exact Selection.unanswered_none
    · rwa [Match.selection_setSelection_of_ne _ _ hd]
  | consult _ hc =>
    by_cases hd : c = s.game.turn
    · subst hd
      cases hc with
      | waiting | refused => exact hs
      | answered choice later hchosen =>
        rw [hs.1] at hchosen
        cases hchosen
      | suspended =>
        rw [Match.selection_setSelection_self]
        exact Resolving.unanswered_offer _ _
    · cases hc with
      | waiting | refused => exact hs
      | answered | suspended => rwa [Match.selection_setSelection_of_ne _ _ hd]
  | _ => exact hs

theorem Steps.unanswered {c : Color} (h : Steps asks ends s s')
    (hs : (s.game.seat c).selection.Unanswered) : (s'.game.seat c).selection.Unanswered :=
  h.keeps (I := fun st => (st.game.seat c).selection.Unanswered)
    (fun _ _ hstep => hstep.unanswered) hs

/-- While no action ends the turn, nobody but the player to move is asked. -/
theorem Step.spares {c : Color} (h : Step asks false s s') (hquiet : endsTurn s'.trace = false)
    (hs : c ≠ s.game.turn ∧ promptStands c s.trace = false) :
    c ≠ s'.game.turn ∧ promptStands c s'.trace = false := by
  obtain ⟨hturn, hstands⟩ := hs
  refine ⟨by rwa [h.turn hquiet], ?_⟩
  cases h with
  | note h hplain => rwa [promptStands_plain c hplain]
  | leave d => simp [promptStands, hstands]
  | consult _ hc =>
    cases hc with
    | suspended =>
      have hne : (s.game.turn == c) = false := by simpa using Ne.symm hturn
      simp [promptStands, hne, hstands]
    | _ => exact hstands
  | _ => exact hstands

theorem Steps.spares {c : Color} (h : Steps asks false s s') (hquiet : endsTurn s'.trace = false)
    (hs : c ≠ s.game.turn ∧ promptStands c s.trace = false) :
    c ≠ s'.game.turn ∧ promptStands c s'.trace = false :=
  h.keeps_quiet (I := fun st => c ≠ st.game.turn ∧ promptStands c st.trace = false)
    (fun _ _ hstep => hstep.spares) hquiet hs

namespace Match

/-- Something is on offer to the player, and no command of the player's waits for an answer. -/
def Stray (m : Match) (c : Color) : Prop :=
  (∀ p, m.pending = some p → p.player ≠ c) ∧ (m.seat c).selection ≠ .none

variable {depth : Nat} {m m' : Match} {c d player : Color} {resumption : Resumption}
  {chosen : List Choice} {trace : List Happening}

theorem not_stray_of_none (h : (m.seat c).selection = .none) : ¬ m.Stray c := fun hs => hs.2 h

theorem Stray.of_notices (hsel : (m'.seat c).selection = (m.seat c).selection)
    (hpending : m'.pending = m.pending) : m'.Stray c ↔ m.Stray c := by
  unfold Stray
  rw [hsel, hpending]

theorem selection_release_self (m : Match) (c : Color) :
    ((m.release c).seat c).selection = .none := by cases c <;> rfl

theorem selection_release_of_ne (m : Match) (h : d ≠ c) :
    ((m.release c).seat d).selection = (m.seat d).selection := by
  cases c <;> cases d <;> first | rfl | exact absurd rfl h

theorem eq_opponent_of_ne {d : Color} (h : d ≠ c) : d = c.opponent := by
  cases c <;> cases d <;> first | rfl | exact absurd rfl h

theorem Idle.not_stray (h : m.Idle) (hd : d ≠ m.turn) : ¬ m.Stray d :=
  not_stray_of_none (eq_opponent_of_ne hd ▸ h)

/-! ### Attempts -/

theorem idle_scratch (hidle : m.Idle) (hturn : player = m.turn) :
    (m.scratch player chosen).game.Idle := by
  have hne : m.turn.opponent ≠ player := hturn ▸ m.turn.opponent_ne
  exact (selection_setSelection_of_ne m (.answering chosen) hne).trans hidle

theorem not_stray_release (hd : d = c) : ¬ (m.release c).Stray d :=
  not_stray_of_none (hd ▸ selection_release_self m c)

/-- A refused command leaves prompts behind only where they were. -/
theorem stray_abandon (r : Rejection) (hidle : m.Idle) (hturn : player = m.turn)
    (hprompt : ∀ p, m.pending = some p → p.player = m.turn) :
    (m.abandon player r).Stray d ↔ m.Stray d := by
  unfold abandon
  split
  · exact Stray.of_notices (selection_setStatus m player d _) rfl
  · rename_i p hp
    have hkept : ((m.release player).reject player r).Stray d ↔ (m.release player).Stray d :=
      Stray.of_notices (selection_setStatus _ player d _) rfl
    rw [hkept]
    by_cases hd : d = m.turn
    · have hbefore : ¬ m.Stray d := fun hs => hs.1 p hp ((hprompt p hp).trans hd.symm)
      exact iff_of_false (not_stray_release (hd.trans hturn.symm)) hbefore
    · have hne : d ≠ player := fun h => hd (h.trans hturn)
      refine iff_of_false (not_stray_of_none ?_) (hidle.not_stray hd)
      rw [selection_release_of_ne m hne]
      exact eq_opponent_of_ne hd ▸ hidle

theorem not_stray_suspend (hidle : m.Idle) (hturn : player = m.turn) (offered : Selection)
    (d : Color) : ¬ (m.suspend player resumption offered chosen).Stray d := by
  by_cases hd : d = player
  · exact fun hs => hs.1 _ rfl hd.symm
  · refine not_stray_of_none ?_
    have hsame : ((m.suspend player resumption offered chosen).seat d).selection =
        (m.seat d).selection := by
      unfold suspend
      exact (selection_setStatus _ player d _).trans (selection_setSelection_of_ne m _ hd)
    rw [hsame, eq_opponent_of_ne (fun h => hd (h.trans hturn.symm) : d ≠ m.turn)]
    exact hidle

/-- The other player has named nothing in the course of the command, so that there is a record just
when there is a prompt. -/
theorem stray_release_iff {st st' : Stage} {x : Except Rejection Unit} {d : Color} (hidle : m.Idle)
    (hturn : player = m.turn) (hd : d ≠ player)
    (hrun : (Attempt.perform (Play.runner depth) player resumption).run.run
      (m.scratch player chosen) = .ok (x, st))
    (hsettle : (Play.settle (Play.runner depth)).run st = .ok ((), st')) :
    (st'.game.release player).Stray d ↔ promptStands d st'.trace = true := by
  have hsteps := steps_perform hrun
  have hlater := steps_settle hsettle
  have hstart : ((m.scratch player chosen).game.seat d).selection = .none := by
    rw [eq_opponent_of_ne (fun h => hd (h.trans hturn.symm) : d ≠ m.turn)]
    exact idle_scratch hidle hturn
  have hopen : (st'.game.seat d).selection.Unanswered :=
    hlater.unanswered (hsteps.unanswered (hstart ▸ Selection.unanswered_none))
  have hrecorded : Recorded d st' := by
    refine hlater.recorded (hsteps.recorded ⟨?_, ?_⟩)
    · rw [hstart]
      rfl
    · rw [hstart]
      exact fun h => nomatch h
  have hstray : (st'.game.release player).Stray d ↔ (st'.game.seat d).selection ≠ .none := by
    unfold Stray
    rw [selection_release_of_ne _ hd]
    exact ⟨fun h => h.2, fun h => ⟨fun p hp => (nomatch hp), h⟩⟩
  rw [hstray, hopen.ne_none_iff, hrecorded.stands]

theorem Attempted.stray (h : Attempted depth m.heard player resumption chosen m' trace)
    (hidle : m.Idle) (hturn : player = m.turn)
    (hprompt : ∀ p, m.pending = some p → p.player = m.turn) (d : Color) :
    (m'.refusal.isSome = true → (m'.Stray d ↔ m.Stray d)) ∧
    (m'.refusal = none →
      (m'.Stray d ↔ m'.pending = none ∧ d ≠ player ∧ promptStands d trace = true)) := by
  have habandon : ∀ r : Rejection,
      ((m.heard.abandon player r).refusal.isSome = true →
        ((m.heard.abandon player r).Stray d ↔ m.Stray d)) ∧
      ((m.heard.abandon player r).refusal = none →
        ((m.heard.abandon player r).Stray d ↔ (m.heard.abandon player r).pending = none ∧
          d ≠ player ∧ promptStands d trace = true)) := by
    intro r
    refine ⟨fun _ => stray_abandon (m := m.heard) r hidle hturn hprompt, fun hnone => ?_⟩
    rw [refusal_abandon] at hnone
    cases hnone
  cases h with
  | rejected r | refused r => exact habandon r
  | @suspended st =>
    refine ⟨fun hr => (nomatch hr), fun _ => iff_of_false ?_ fun h => (nomatch h.1)⟩
    exact not_stray_suspend (m := m.heard) hidle hturn _ d
  | @carried st st' hrun hrefusal _ hsettle =>
    have hnone : (st'.game.release player).refusal = none :=
      (steps_settle hsettle).refusal_eq.trans hrefusal
    refine ⟨fun hr => ?_, fun _ => ?_⟩
    · rw [hnone] at hr
      cases hr
    by_cases hd : d = player
    · exact iff_of_false (not_stray_release hd) fun h => h.2.1 hd
    · have hiff := stray_release_iff (m := m.heard) hidle hturn hd hrun hsettle
      exact ⟨fun h => ⟨rfl, hd, hiff.1 h⟩, fun h => hiff.2 h.2.2⟩

theorem Idle.release (h : m.Idle) (c : Color) : (m.release c).Idle := by
  by_cases hc : m.turn.opponent = c
  · subst hc
    exact selection_release_self m _
  · exact (selection_release_of_ne m hc).trans h

theorem Idle.reject (h : m.Idle) (c : Color) (r : Rejection) : (m.reject c r).Idle :=
  (selection_setStatus m c _ _).trans h

theorem Attempted.idle (h : Attempted depth m player resumption chosen m' trace)
    (hidle : m.Idle) (hturn : player = m.turn) : m'.Idle := by
  have hne : m.turn.opponent ≠ player := hturn ▸ m.turn.opponent_ne
  have habandon : ∀ r, (m.abandon player r).Idle := by
    intro r
    unfold abandon
    split
    · exact hidle.reject player r
    · exact (hidle.release player).reject player r
  cases h with
  | rejected r | refused r => exact habandon r
  | suspended =>
    exact (selection_setStatus _ player _ _).trans
      ((selection_setSelection_of_ne m _ hne).trans hidle)
  | carried hrun _ _ hsettle =>
    have hact := (act_perform hrun).trans (act_settle hsettle)
    exact (hact.deeds.idle (idle_scratch hidle hturn)).release player

/-! ### Ends of turns -/

/-- Who has been asked for a target and passes is not asked any more. -/
theorem selection_endOfTurn {st : Stage} (hidle : m.Idle)
    (h : (do
      Play.passTurn (Play.runner depth)
      Play.settle (Play.runner depth) : Play Unit).run ⟨m, []⟩ = .ok ((), st)) :
    (st.game.seat d).selection = .none := by
  have hquiet := Play.built_runner false depth
  obtain ⟨_, s₂, hpass, hsettle⟩ := Play.run_bind h
  obtain ⟨_, s₁, hend, hstart⟩ := Play.run_bind hpass
  have hstarted : Play.Built false true (do
      if !(← Play.game).isOver then Play.startTurn (Play.runner depth)) := by
    refine .look (fun _ => rfl) fun m => ?_
    split
    · exact Play.built_startTurn hquiet
    · exact .pure ()
  have hrest : Steps false true s₁ st :=
    (hstarted.steps hstart).trans ((Play.built_settle hquiet).steps hsettle)
  by_cases hd : d = m.turn
  · obtain ⟨mid, _, hasked, rfl⟩ := Play.ended_of_run (Play.goes_runner depth) hquiet hend
    subst hd
    refine hrest.selection_none ?_
    exact ((Edit.checkVictory).silent.selection mid.game _).trans hasked
  · refine (steps_endOfTurn h).selection_none ?_
    exact eq_opponent_of_ne hd ▸ hidle

/-! ### Commands -/

theorem Reachable.prompt_turn (hm : m.Reachable) {p : Prompt} (hp : m.pending = some p) :
    p.player = m.turn := (hm.prompted hp).turn

/-- Nobody but the player to move is ever asked for anything. -/
theorem Reachable.idle (hm : m.Reachable) : m.Idle := by
  induction hm with
  | @start s m h =>
    have hnotices := MatchSetup.notices_start h
    exact Idle.of_notices (m := s.tableOf) rfl hnotices
  | @next depth m m' c trace hm h ih =>
    have hidle : m.heard.Idle := ih
    cases submitted h with
    | early r => exact hidle.reject _ r
    | started _ _ hturn _ h => exact h.idle hidle hturn
    | answered _ hprompt hplayer _ _ h =>
      exact h.idle hidle (hplayer ▸ hm.prompt_turn hprompt)
    | passed _ _ _ _ hrun => exact selection_endOfTurn hidle hrun

theorem Reachable.stray_iff (hm : m.Reachable) {c : Command}
    (h : m.submitTraced depth c = .ok (m', trace)) (d : Color) :
    (m'.refusal.isSome = true → (m'.Stray d ↔ m.Stray d)) ∧
    (m'.refusal = none →
      (m'.Stray d ↔ m'.pending = none ∧ d ≠ c.player ∧ promptStands d trace = true)) := by
  cases submitted h with
  | early r =>
    refine ⟨fun _ => Stray.of_notices (selection_setStatus _ _ d _) rfl, fun hnone => ?_⟩
    cases hnone
  | started _ _ hturn _ h => exact h.stray hm.idle hturn (fun _ => hm.prompt_turn) d
  | answered _ hprompt hplayer _ _ h =>
    exact h.stray hm.idle (hplayer ▸ hm.prompt_turn hprompt) (fun _ => hm.prompt_turn) d
  | @passed st _ _ _ _ hrun =>
    have hsteps := steps_endOfTurn hrun
    have hnone : st.game.refusal = none := hsteps.refusal_eq
    refine ⟨fun hr => ?_, fun _ => ?_⟩
    · rw [hnone] at hr
      cases hr
    · have hidle : m.heard.Idle := hm.idle
      have hstands : promptStands d st.trace = false := hsteps.not_promptStands rfl
      refine iff_of_false (not_stray_of_none (selection_endOfTurn hidle hrun)) fun h => ?_
      rw [hstands] at h
      cases h.2.2

theorem Attempted.not_stray (h : Attempted depth m.heard player resumption chosen m' trace)
    (hidle : m.Idle) (hturn : player = m.turn)
    (hprompt : ∀ p, m.pending = some p → p.player = m.turn)
    (hnone : m'.refusal = none) (hquiet : endsTurn trace = false) (d : Color) : ¬ m'.Stray d := by
  rw [(h.stray hidle hturn hprompt d).2 hnone]
  rintro ⟨hpending, hd, hstands⟩
  cases h with
  | rejected r | refused r =>
    rw [refusal_abandon] at hnone
    cases hnone
  | suspended => cases hpending
  | carried hrun _ _ hsettle =>
    have hlater := steps_settle hsettle
    have hbegun : d ≠ (m.heard.scratch player chosen).game.turn ∧
        promptStands d (m.heard.scratch player chosen).trace = false :=
      ⟨fun h => hd (h.trans hturn.symm), rfl⟩
    have hperformed := (steps_perform hrun).spares
      (any_eq_false_of_suffix hlater.trace_suffix hquiet) hbegun
    rw [(hlater.spares hquiet hperformed).2] at hstands
    cases hstands

/-- A match that came about without an action that ended a turn, but for commands that were
refused. -/
inductive Uncut : Match → Prop where
  | start {s : MatchSetup} {m : Match} : s.start = .ok m → Uncut m
  | next {depth : Nat} {m m' : Match} {c : Command} {trace : List Happening} : Uncut m →
    m.submitTraced depth c = .ok (m', trace) → m'.refusal.isSome = true ∨ endsTurn trace = false →
    Uncut m'

theorem Uncut.reachable (h : m.Uncut) : m.Reachable := by
  induction h with
  | start h => exact .start h
  | next _ h _ ih => exact ih.next h

/-- No prompt stays behind as long as no action ends a turn. -/
theorem Uncut.not_stray (h : m.Uncut) (d : Color) : ¬ m.Stray d := by
  induction h with
  | @start s m h =>
    have hnotices := MatchSetup.notices_start h
    refine not_stray_of_none ?_
    rw [← selection_notices, hnotices]
    cases d <;> rfl
  | @next depth m m' c trace hm h hcause ih =>
    have hreach := hm.reachable
    cases hrefusal : m'.refusal with
    | some r => exact fun hs => ih (((hreach.stray_iff h d).1 (by rw [hrefusal]; rfl)).1 hs)
    | none =>
      have hquiet : endsTurn trace = false := hcause.resolve_left (by rw [hrefusal]; simp)
      cases submitted h with
      | early => cases hrefusal
      | started _ _ hturn _ h =>
        exact h.not_stray hreach.idle hturn (fun _ => hreach.prompt_turn) hrefusal hquiet d
      | answered _ hprompt hplayer _ _ h =>
        exact h.not_stray hreach.idle (hplayer ▸ hreach.prompt_turn hprompt)
          (fun _ => hreach.prompt_turn) hrefusal hquiet d
      | passed _ _ _ _ hrun =>
        have hidle : m.heard.Idle := hreach.idle
        exact not_stray_of_none (selection_endOfTurn hidle hrun)

/-- No prompt stays behind as long as no action ends a turn. Beyond that a refused command leaves
prompts behind only where they were, and any other just where somebody else than its player was
asked, in the course of it, and that player's turn has not ended since. -/
theorem Reachable.stray_iff_promptStands (hm : m.Reachable) (d : Color) :
    (m.Uncut → ¬ m.Stray d) ∧
    ∀ (depth : Nat) (m' : Match) (c : Command) (trace : List Happening),
      m.submitTraced depth c = .ok (m', trace) →
      (m'.refusal.isSome = true → (m'.Stray d ↔ m.Stray d)) ∧
      (m'.refusal = none →
        (m'.Stray d ↔ m'.pending = none ∧ d ≠ c.player ∧ promptStands d trace = true)) :=
  ⟨fun huncut => huncut.not_stray d, fun _ _ _ _ h => hm.stray_iff h d⟩

/-- A card that asks for a target, and nothing else, leaves no prompt behind. -/
theorem Reachable.stray_iff_promptStands_solo :
    ∃ (m m' : Match) (trace : List Happening), m.Reachable ∧ m.Uncut ∧ (∀ d, ¬ m.Stray d) ∧
      m.submitTraced maxDepth .playSolo = .ok (m', trace) ∧
      (∀ d, (m'.refusal.isSome = true → (m'.Stray d ↔ m.Stray d)) ∧
        (m'.refusal = none → (m'.Stray d ↔ m'.pending = none ∧ d ≠ Command.playSolo.player ∧
          promptStands d trace = true))) ∧
      m'.Reachable ∧ m'.Uncut ∧ ∀ d, ¬ m'.Stray d := by
  have hrun : ((MatchSetup.solo [.dealDamage (.choose (.piecesInPlay .any)) (.const 1)]).start.holds
      fun m => (m.submitTraced maxDepth .playSolo).holds fun x => !endsTurn x.2) = true := by
    decide +kernel
  obtain ⟨m, hstart, hrun⟩ := Outcome.exists_of_holds hrun
  obtain ⟨⟨m', trace⟩, hplay, hquiet⟩ := Outcome.exists_of_holds hrun
  have hm : Reachable m := .start hstart
  have hm' : Reachable m' := hm.next hplay
  have huncut : Uncut m := .start hstart
  have huncut' : Uncut m' := huncut.next hplay (.inr (by simpa using hquiet))
  exact ⟨m, m', trace, hm, huncut, fun d => (hm.stray_iff_promptStands d).1 huncut, hplay,
    fun d => (hm.stray_iff_promptStands d).2 maxDepth m' _ trace hplay, hm', huncut',
    fun d => (hm'.stray_iff_promptStands d).1 huncut'⟩

/-- A card that ends the turn first asks orange, who has done nothing, and blue's command is carried
out all the same: orange's prompt stays behind, and no command waits for its answer. -/
theorem left_behind_solo :
    ∃ m, Reachable m ∧ (∀ p, m.pending = some p → p.player ≠ .orange) ∧
      (m.seat .orange).selection ≠ .none := by
  have hrun : ((MatchSetup.solo
      [.endTurn, .dealDamage (.choose (.piecesInPlay .any)) (.const 1)]).start.holds
      fun m => (m.submitTraced maxDepth .playSolo).holds fun x =>
        x.1.pending.isNone && (x.1.seat .orange).selection.choosing) = true := by
    decide +kernel
  obtain ⟨m, hstart, hrun⟩ := Outcome.exists_of_holds hrun
  obtain ⟨⟨m', trace⟩, hplay, hend⟩ := Outcome.exists_of_holds hrun
  simp only [Bool.and_eq_true, Option.isNone_iff_eq_none] at hend
  refine ⟨m', (Reachable.start hstart).next hplay, ?_, ?_⟩
  · intro p hp
    rw [hend.1] at hp
    cases hp
  · intro hnone
    rw [hnone] at hend
    cases hend.2

end Match
end HexDuel
