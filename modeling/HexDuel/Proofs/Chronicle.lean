import HexDuel.Proofs.Lasting
import HexDuel.Proofs.Rejected

/-!
The chronicle of a match: what happened in all the commands that were carried out. What happened in
a command that is refused or waits for an answer is no part of it, since the copy of the match in
which it happened is thrown away. What conduct keeps, and what does not go by what the match tells
besides the turn, holds of every match with its chronicle.
-/

set_option autoImplicit false

namespace HexDuel.Match

variable {depth : Nat} {m m' : Match} {c : Command} {resumption : Resumption}
  {chosen : List Choice} {trace past : List Happening}

/-- The same match at the same time, which tells something else. -/
structure Repeats (m m' : Match) : Prop where
  told : m.Retold m'
  bearing : m'.bearing = m.bearing

theorem Repeats.trans {m'' : Match} (h : m.Repeats m') (h' : m'.Repeats m'') : m.Repeats m'' :=
  ⟨h.told.trans h'.told, h'.bearing.trans h.bearing⟩

theorem Repeats.standing (h : m.Repeats m') : m'.standing = m.standing :=
  standing_of_bearing h.bearing

theorem repeats_heard (m : Match) : m.Repeats m.heard := ⟨retold_heard m, rfl⟩

theorem bearing_setStatus (m : Match) (c : Color) (text : String) :
    (m.setStatus c text).bearing = m.bearing := m.bearing_changeSeat c fun _ => rfl

theorem bearing_release (m : Match) (c : Color) : (m.release c).bearing = m.bearing :=
  (bearing_setStatus (m.setSelection c .none) c "").trans (m.bearing_setSelection c .none)

theorem repeats_reject (player : Color) (r : Rejection) (m : Match) :
    m.Repeats (m.reject player r) := ⟨retold_reject player r m, m.bearing_setStatus player _⟩

theorem repeats_release (player : Color) (m : Match) : m.Repeats (m.release player) :=
  ⟨retold_release player m, m.bearing_release player⟩

theorem repeats_abandon (player : Color) (r : Rejection) (m : Match) :
    m.Repeats (m.abandon player r) := by
  unfold abandon
  split
  · exact repeats_reject player r m
  · exact (repeats_release player m).trans (repeats_reject player r _)

theorem repeats_suspend (player : Color) (resumption : Resumption) (offered : Selection)
    (chosen : List Choice) (m : Match) : m.Repeats (m.suspend player resumption offered chosen) :=
  ⟨retold_suspend player resumption offered chosen m,
    (bearing_setStatus _ player _).trans (m.bearing_setSelection player _)⟩

theorem repeats_scratch (player : Color) (chosen : List Choice) (m : Match) :
    m.Repeats (m.scratch player chosen).game :=
  ⟨retold_scratch player chosen m, m.bearing_setSelection player _⟩

/-- What a command has been through, and what has become of the match. -/
structure Undergoes (m m' : Match) (trace : List Happening) (first last : Stage) : Prop where
  begins : m.Repeats first.game
  fresh : first.trace = []
  venture : Venture first last
  beats : HexDuel.beats trace = HexDuel.beats last.trace
  stands : m'.Accepted → last.game.Repeats m' ∧ last.trace = trace
  discarded : ¬ m'.Accepted → m.Repeats m'

theorem Attempted.undergoes {player : Color}
    (h : Attempted depth m.heard player resumption chosen m' trace) :
    ∃ first last, m.Undergoes m' trace first last := by
  have hbegins : m.Repeats (m.heard.scratch player chosen).game :=
    (repeats_heard m).trans (repeats_scratch player chosen m.heard)
  have habandon : ∀ r, ¬ (m.heard.abandon player r).Accepted := fun r =>
    not_accepted_of_refusal (refusal_abandon _ _ r)
  have hkept : ∀ r, m.Repeats (m.heard.abandon player r) := fun r =>
    (repeats_heard m).trans (repeats_abandon player r _)
  cases h with
  | @rejected r st hrun =>
    have htrace : st.trace = [] := Attempt.mild_perform _ player resumption _ _ _ hrun
    exact ⟨_, _, hbegins, rfl, .conduct (.refl _), congrArg HexDuel.beats htrace,
      fun haccepted => (habandon r haccepted).elim, fun _ => hkept r⟩
  | refused r hrun =>
    exact ⟨_, _, hbegins, rfl, venture_perform hrun, rfl,
      fun haccepted => (habandon r haccepted).elim, fun _ => hkept r⟩
  | suspended hrun =>
    exact ⟨_, _, hbegins, rfl, venture_perform hrun, rfl, fun haccepted => (nomatch haccepted.2),
      fun _ => (repeats_heard m).trans (repeats_suspend player resumption _ chosen _)⟩
  | @carried _ st' hrun hrefusal _ hsettle =>
    have hnone : st'.game.refusal = none := (steps_settle hsettle).refusal_eq.trans hrefusal
    exact ⟨_, _, hbegins, rfl, (venture_perform hrun).next (conduct_settle hsettle), rfl,
      fun _ => ⟨repeats_release player _, rfl⟩, fun hnot => (hnot ⟨hnone, rfl⟩).elim⟩

theorem undergoes (h : m.submitTraced depth c = .ok (m', trace)) :
    ∃ first last, m.Undergoes m' trace first last := by
  cases submitted h with
  | early r =>
    have hkept : m.Repeats (m.heard.reject c.player r) :=
      (repeats_heard m).trans (repeats_reject c.player r _)
    exact ⟨⟨m.heard, []⟩, ⟨m.heard, []⟩, repeats_heard m, rfl, .conduct (.refl _), rfl,
      fun haccepted => (nomatch haccepted.1), fun _ => hkept⟩
  | started _ _ _ _ h => exact h.undergoes
  | answered _ _ _ _ _ h => exact h.undergoes
  | @passed st _ hpending _ _ hrun =>
    have hsteps := steps_endOfTurn hrun
    have hnone : st.game.refusal = none := hsteps.refusal_eq
    obtain ⟨_, s₁, hpass, hsettle⟩ := Play.run_bind hrun
    exact ⟨⟨m.heard, []⟩, st, repeats_heard m, rfl,
      .conduct ((conduct_passTurn hpass).trans (conduct_settle hsettle)), rfl,
      fun _ => ⟨⟨⟨st.game.notices, rfl⟩, rfl⟩, rfl⟩,
      fun hnot => (hnot ⟨hnone, hsteps.pending.trans hpending⟩).elim⟩

/-- A match and what has happened in it, last first. -/
inductive Chronicle : Match → List Happening → Prop where
  | start {s : MatchSetup} {m : Match} : s.start = .ok m → Chronicle m []
  | idle {depth : Nat} {m m' : Match} {c : Command} {trace past : List Happening} :
    Chronicle m past → m.submitTraced depth c = .ok (m', trace) → ¬ m'.Accepted →
    Chronicle m' past
  | done {depth : Nat} {m m' : Match} {c : Command} {trace past : List Happening} :
    Chronicle m past → m.submitTraced depth c = .ok (m', trace) → m'.Accepted →
    Chronicle m' (trace ++ past)

theorem Chronicle.reachable (h : m.Chronicle past) : m.Reachable := by
  induction h with
  | start h => exact .start h
  | idle _ h _ ih => exact ih.next h
  | done _ h _ ih => exact ih.next h

theorem Chronicle.next (h : m.Chronicle past) (hc : m.submitTraced depth c = .ok (m', trace)) :
    ∃ past', m'.Chronicle past' := by
  by_cases haccepted : m'.Accepted
  · exact ⟨_, .done h hc haccepted⟩
  · exact ⟨_, .idle h hc haccepted⟩

theorem Reachable.chronicle (hm : m.Reachable) : ∃ past, m.Chronicle past := by
  induction hm with
  | start h => exact ⟨[], .start h⟩
  | next _ h ih =>
    obtain ⟨past, ih⟩ := ih
    exact ih.next h

/-- Conduct keeps it, and of what the match tells it goes by the turn alone. Nor does it go by
whether an event keeps its place in the hand. -/
structure Inherited (I : Match → List Happening → Prop) : Prop where
  start : ∀ (s : MatchSetup) (m : Match), s.start = .ok m → I m []
  repeats : ∀ m m' past, m.Repeats m' → I m past → I m' past
  errand : ∀ s s' past, Errand s s' → s.Calm s' → I s.game (s.trace ++ past) →
    I s'.game (s'.trace ++ past)
  conduct : ∀ s s' past, Conduct s s' → I s.game (s.trace ++ past) → I s'.game (s'.trace ++ past)

namespace Inherited
variable {I : Match → List Happening → Prop}

/-- It holds where a command ends, even if that is thrown away. -/
theorem last (hI : Inherited I) {first last : Stage} (h : m.Undergoes m' trace first last)
    (hm : I m past) : I last.game (last.trace ++ past) := by
  refine h.venture.keeps (I := fun st => I st.game (st.trace ++ past))
    (fun s s' => hI.errand s s' past) (fun s s' => hI.conduct s s' past) ?_
  rw [h.fresh]
  exact hI.repeats m _ past h.begins hm

theorem chronicle (hI : Inherited I) (h : m.Chronicle past) : I m past := by
  induction h with
  | start h => exact hI.start _ _ h
  | idle _ h hnot ih =>
    obtain ⟨first, last, hundergoes⟩ := undergoes h
    exact hI.repeats _ _ _ (hundergoes.discarded hnot) ih
  | done _ h haccepted ih =>
    obtain ⟨first, last, hundergoes⟩ := undergoes h
    obtain ⟨hrepeats, rfl⟩ := hundergoes.stands haccepted
    exact hI.repeats _ _ _ hrepeats (hI.last hundergoes ih)

end Inherited
end HexDuel.Match
