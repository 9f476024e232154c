import HexDuel.Proofs.ActsCommands
import HexDuel.Proofs.Refusal

/-!
What lasts. Besides its acts a command changes only what the match tells, so that whatever acts
keep and whatever goes by nothing that is told outlasts every command.
-/

set_option autoImplicit false

namespace HexDuel.Match

variable {depth : Nat} {m m' : Match} {c : Command} {resumption : Resumption}
  {chosen : List Choice} {trace : List Happening}

/-- The same match, which tells something else. -/
def Retold (m m' : Match) : Prop := ∃ n, m' = m.withNotices n

theorem retold_heard (m : Match) : m.Retold m.heard := ⟨m.heard.notices, rfl⟩

theorem retold_reject (player : Color) (r : Rejection) (m : Match) :
    m.Retold (m.reject player r) := ⟨(m.reject player r).notices, by cases player <;> rfl⟩

theorem retold_release (player : Color) (m : Match) : m.Retold (m.release player) :=
  ⟨(m.release player).notices, by cases player <;> rfl⟩

theorem retold_abandon (player : Color) (r : Rejection) (m : Match) :
    m.Retold (m.abandon player r) := by
  unfold abandon
  split
  · exact retold_reject player r m
  · exact ⟨((m.release player).reject player r).notices, by cases player <;> rfl⟩

theorem retold_suspend (player : Color) (resumption : Resumption) (offered : Selection)
    (chosen : List Choice) (m : Match) : m.Retold (m.suspend player resumption offered chosen) :=
  ⟨(m.suspend player resumption offered chosen).notices, by cases player <;> rfl⟩

theorem retold_scratch (player : Color) (chosen : List Choice) (m : Match) :
    m.Retold (m.scratch player chosen).game :=
  ⟨(m.scratch player chosen).game.notices, by cases player <;> rfl⟩

/-- The last command was not refused, and no command waits for an answer. -/
def Accepted (m : Match) : Prop := m.refusal = none ∧ m.pending = none

theorem not_accepted_of_refusal {r : Rejection} (h : m.refusal = some r) : ¬ m.Accepted :=
  fun haccepted => nomatch h.symm.trans haccepted.1

/-- How far a command comes before the board is settled. -/
inductive Carries (depth : Nat) (m : Match) : Stage → Prop where
  | attempt {player : Color} {resumption : Resumption} {chosen : List Choice} {st : Stage} :
    (Attempt.perform (Play.runner depth) player resumption).run.run
      (m.heard.scratch player chosen) = .ok (.ok (), st) → Carries depth m st
  | pass {st : Stage} :
    (Play.passTurn (Play.runner depth)).run ⟨m.heard, []⟩ = .ok ((), st) → Carries depth m st

/-- What a command comes to. It is refused or waits for an answer, and all else is thrown away, or
what it does is followed by a settling and stands. -/
inductive Enacted (depth : Nat) (m m' : Match) (trace : List Happening) : Prop where
  | idle : ¬ m'.Accepted → m.Retold m' → Enacted depth m m' trace
  | done {st st' : Stage} : m'.Accepted → m.Carries depth st →
    (Play.settle (Play.runner depth)).run st = .ok ((), st') → st'.game.Retold m' →
    st'.trace = trace → Enacted depth m m' trace

theorem Retold.trans {m'' : Match} (h : m.Retold m') (h' : m'.Retold m'') : m.Retold m'' := by
  obtain ⟨n, rfl⟩ := h
  obtain ⟨n', rfl⟩ := h'
  exact ⟨n', rfl⟩

/-- It comes so far by acts. -/
theorem Carries.acts {st : Stage} (h : m.Carries depth st) :
    ∃ s : Stage, m.Retold s.game ∧ s.trace = [] ∧ Act s st := by
  cases h with
  | attempt hrun =>
    exact ⟨_, (retold_heard m).trans (retold_scratch _ _ _), rfl, act_perform hrun⟩
  | pass hrun => exact ⟨_, retold_heard m, rfl, act_passTurn hrun⟩

theorem Attempted.enacted {player : Color}
    (h : Attempted depth m.heard player resumption chosen m' trace) : Enacted depth m m' trace := by
  have hheard := retold_heard m
  cases h with
  | rejected r | refused r =>
    refine .idle (fun haccepted => ?_) (hheard.trans (retold_abandon player r _))
    have hrefused := haccepted.1
    rw [refusal_abandon] at hrefused
    cases hrefused
  | suspended =>
    exact .idle (fun haccepted => nomatch haccepted.2)
      (hheard.trans (retold_suspend player resumption _ chosen _))
  | @carried _ st' hrun hrefusal _ hsettle =>
    have hnone : st'.game.refusal = none := (steps_settle hsettle).refusal_eq.trans hrefusal
    exact .done ⟨hnone, rfl⟩ (.attempt hrun) hsettle (retold_release player st'.game) rfl

theorem enacted (h : m.submitTraced depth c = .ok (m', trace)) : Enacted depth m m' trace := by
  cases submitted h with
  | early r =>
    exact .idle (fun haccepted => nomatch haccepted.1)
      ((retold_heard m).trans (retold_reject c.player r _))
  | started _ _ _ _ h => exact h.enacted
  | answered _ _ _ _ _ h => exact h.enacted
  | @passed st _ hpending _ _ hrun =>
    have hsteps := steps_endOfTurn hrun
    have hnone : st.game.refusal = none := hsteps.refusal_eq
    obtain ⟨_, s₁, hpass, hsettle⟩ := Play.run_bind hrun
    exact .done ⟨hnone, hsteps.pending.trans hpending⟩ (.pass hpass) hsettle
      ⟨st.game.notices, rfl⟩ rfl

/-- What a command asks for, and the answers that have been given to it. -/
inductive Calls (m : Match) : Command → Resumption → List Choice → Prop where
  | start {c : Command} {resumption : Resumption} : m.pending = none →
    c.resumption? = some resumption → Calls m c resumption []
  | answer {player : Color} {x : Choice} {prompt : Prompt} : m.pending = some prompt →
    Calls m (.chooseTarget player x) prompt.resumption ((m.seat player).selection.chosen ++ [x])

theorem Calls.unique {resumption' : Resumption} {chosen' : List Choice}
    (h : m.Calls c resumption chosen) (h' : m.Calls c resumption' chosen') :
    resumption' = resumption ∧ chosen' = chosen := by
  cases h with
  | start _ hcalled =>
    cases h' with
    | start _ hcalled' => exact ⟨Option.some.inj (hcalled'.symm.trans hcalled), rfl⟩
    | answer => cases hcalled
  | answer hprompt =>
    cases h' with
    | start _ hcalled' => cases hcalled'
    | answer hprompt' =>
      obtain rfl := Option.some.inj (hprompt'.symm.trans hprompt)
      exact ⟨rfl, rfl⟩

/-- The ways in which a command is carried out. -/
inductive Fulfilled (depth : Nat) (m : Match) (c : Command) : Match → Prop where
  | performed {resumption : Resumption} {chosen : List Choice} {st st' : Stage} :
    m.Calls c resumption chosen →
    (Attempt.perform (Play.runner depth) c.player resumption).run.run (m.scratch c.player chosen) =
      .ok (.ok (), st) →
    (Play.settle (Play.runner depth)).run st = .ok ((), st') →
    Fulfilled depth m c (st'.game.release c.player)
  | passed {st st' : Stage} : c = .passTurn c.player →
    (Play.passTurn (Play.runner depth)).run ⟨m, []⟩ = .ok ((), st) →
    (Play.settle (Play.runner depth)).run st = .ok ((), st') → Fulfilled depth m c st'.game

theorem Attempted.fulfilled (h : Attempted depth m c.player resumption chosen m' trace)
    (hcalls : m.Calls c resumption chosen) (haccepted : m'.Accepted) : m.Fulfilled depth c m' := by
  cases h with
  | rejected r | refused r =>
    exact absurd haccepted (not_accepted_of_refusal (refusal_abandon _ _ r))
  | suspended => exact nomatch haccepted.2
  | carried hrun _ _ hsettle => exact .performed hcalls hrun hsettle

theorem fulfilled (h : m.submitTraced depth c = .ok (m', trace)) (haccepted : m'.Accepted) :
    m.heard.Fulfilled depth c m' := by
  cases submitted h with
  | early r => exact nomatch haccepted.1
  | started _ hpending _ hcalled h => exact h.fulfilled (.start hpending hcalled) haccepted
  | @answered prompt x _ _ _ hprompt _ hc _ h =>
    have hcalls : m.heard.Calls (.chooseTarget c.player x) prompt.resumption
      ((m.heard.seat c.player).selection.chosen ++ [x]) := .answer hprompt
    rw [← hc] at hcalls
    exact h.fulfilled hcalls haccepted
  | passed _ _ _ hc hrun =>
    obtain ⟨_, s₁, hpass, hsettle⟩ := Play.run_bind hrun
    exact .passed hc hpass hsettle

/-- What a command asks for is what is carried out. -/
theorem Fulfilled.performs (h : m.Fulfilled depth c m') (hcalls : m.Calls c resumption chosen) :
    ∃ st st' : Stage,
      (Attempt.perform (Play.runner depth) c.player resumption).run.run
        (m.scratch c.player chosen) = .ok (.ok (), st) ∧
      (Play.settle (Play.runner depth)).run st = .ok ((), st') ∧
      st'.game.release c.player = m' := by
  cases h with
  | @performed _ _ st st' hcalls' hrun hsettle =>
    obtain ⟨rfl, rfl⟩ := hcalls.unique hcalls'
    exact ⟨st, st', hrun, hsettle, rfl⟩
  | passed hc =>
    rw [hc] at hcalls
    cases hcalls with
    | start _ hcalled => cases hcalled

/-- Acts keep it, and it goes by nothing that the match tells. -/
structure Lasting (I : Match → Prop) : Prop where
  retold : ∀ m m' : Match, m.Retold m' → I m → I m'
  acts : ∀ s s', Act s s' → I s.game → I s'.game

/-- What every command keeps is kept by one after the other. -/
theorem course_keeps {I : Match → Prop}
    (hstep : ∀ m m' c trace, m.submitTraced depth c = .ok (m', trace) → I m → I m')
    {cs : List Command} (h : m.course depth cs = .ok m') (hm : I m) : I m' := by
  induction cs generalizing m with
  | nil =>
    cases h
    exact hm
  | cons c cs ih =>
    rw [course_cons] at h
    cases hs : m.submitTraced depth c with
    | error f => rw [hs] at h; cases h
    | ok x =>
      rw [hs] at h
      exact ih h (hstep m x.1 c x.2 hs hm)

theorem course_one (h : m.submitTraced depth c = .ok (m', trace)) :
    m.course depth [c] = .ok m' := by
  rw [course_cons, h]
  rfl

theorem Reachable.course (hm : m.Reachable) {cs : List Command}
    (h : m.course depth cs = .ok m') : m'.Reachable :=
  course_keeps (fun _ _ _ _ hx hreach => hreach.next hx) h hm

namespace Lasting
variable {I : Match → Prop}

theorem submitTraced (hI : Lasting I) (h : m.submitTraced depth c = .ok (m', trace)) (hm : I m) :
    I m' := by
  cases enacted h with
  | idle _ htold => exact hI.retold m m' htold hm
  | done _ hcarries hsettle hend =>
    obtain ⟨s, htold, -, hact⟩ := hcarries.acts
    have hstart := hI.retold m _ htold hm
    exact hI.retold _ m' hend (hI.acts _ _ (hact.trans (act_settle hsettle)) hstart)

theorem course (hI : Lasting I) {cs : List Command} (h : m.course depth cs = .ok m') (hm : I m) :
    I m' := course_keeps (fun _ _ _ _ hx => hI.submitTraced hx) h hm

theorem reachable (hI : Lasting I) (hstart : ∀ (s : MatchSetup) (m : Match), s.start = .ok m → I m)
    (hm : m.Reachable) : I m := by
  induction hm with
  | start h => exact hstart _ _ h
  | next _ h ih => exact hI.submitTraced h ih

end Lasting
end HexDuel.Match

namespace HexDuel

/-- A match that has come about from this setup. -/
inductive MatchSetup.Reaches (s : MatchSetup) : Match → Prop where
  | start {m : Match} : s.start = .ok m → s.Reaches m
  | next {depth : Nat} {m m' : Match} {c : Command} {trace : List Happening} : s.Reaches m →
    m.submitTraced depth c = .ok (m', trace) → s.Reaches m'

theorem MatchSetup.Reaches.reachable {s : MatchSetup} {m : Match} (hm : s.Reaches m) :
    m.Reachable := by
  induction hm with
  | start h => exact .start h
  | next _ h ih => exact ih.next h

theorem Match.Lasting.reaches {I : Match → Prop} {s : MatchSetup} {m : Match} (hI : Lasting I)
    (hstart : ∀ m : Match, s.start = .ok m → I m) (hm : s.Reaches m) : I m := by
  induction hm with
  | start h => exact hstart _ h
  | next _ h ih => exact hI.submitTraced h ih

end HexDuel
