import HexDuel.Proofs.Steps

/-!
The record of what a player is asked for, in the course of a resolution. It stands exactly when the
player was asked and the player's turn has not ended since; a resolution in which nobody can be
asked neither asks nor uses up an answer.
-/

set_option autoImplicit false

namespace HexDuel

namespace Match

theorem selection_setSelection_self (m : Match) (c : Color) (x : Selection) :
    ((m.setSelection c x).seat c).selection = x := by cases c <;> rfl

theorem selection_setSelection_of_ne (m : Match) {c d : Color} (x : Selection) (h : d ≠ c) :
    ((m.setSelection c x).seat d).selection = (m.seat d).selection := by
  cases c <;> cases d <;> first | rfl | exact absurd rfl h

@[simp] theorem selection_setStatus (m : Match) (c d : Color) (text : String) :
    ((m.setStatus c text).seat d).selection = (m.seat d).selection := by
  cases c <;> cases d <;> rfl

end Match

variable {asks ends : Bool} {s s' : Stage}

/-! ### What is left alone -/

theorem Step.pending (h : Step asks ends s s') : s'.game.pending = s.game.pending := by
  cases h with
  | edit hf => exact hf.silent.pending s.game
  | consult _ hc => cases hc <;> rfl
  | _ => rfl

theorem Steps.pending (h : Steps asks ends s s') : s'.game.pending = s.game.pending :=
  h.keeps (I := fun st => st.game.pending = s.game.pending)
    (fun _ _ hstep hst => hstep.pending.trans hst) rfl

/-- Only when a player is asked can a resolution come to a refusal. -/
theorem Step.refusal (h : Step asks ends s s') :
    s'.game.refusal = s.game.refusal ∨ asks = true ∧ s'.game.refusal = some .noValidTargets := by
  cases h with
  | edit hf => exact .inl (hf.silent.refusal s.game)
  | consult hasks hc =>
    cases hc with
    | refused => exact .inr ⟨hasks, rfl⟩
    | _ => exact .inl rfl
  | _ => exact .inl rfl

theorem Steps.refusal (h : Steps asks ends s s') :
    s'.game.refusal = s.game.refusal ∨ asks = true ∧ s'.game.refusal = some .noValidTargets :=
  h.keeps (I := fun st => st.game.refusal = s.game.refusal ∨
      asks = true ∧ st.game.refusal = some .noValidTargets)
    (fun _ _ hstep hst => by
      obtain hkept | hrefused := hstep.refusal
      · rwa [hkept]
      · exact .inr hrefused) (.inl rfl)

/-- Where nobody is asked anything, nothing is refused. -/
theorem Steps.refusal_eq (h : Steps false ends s s') : s'.game.refusal = s.game.refusal := by
  obtain hkept | ⟨hasks, -⟩ := h.refusal
  · exact hkept
  · cases hasks

/-- While no action ends the turn, it is the same player's. -/
theorem Step.turn (h : Step asks false s s') (hq : endsTurn s'.trace = false) :
    s'.game.turn = s.game.turn := by
  cases h with
  | edit hf => exact hf.silent.turn s.game
  | consult _ hc => cases hc <;> rfl
  | handOver c hends => simp [hq] at hends
  | _ => rfl

theorem Steps.turn (h : Steps asks false s s') (hquiet : endsTurn s'.trace = false) :
    s'.game.turn = s.game.turn :=
  h.keeps_quiet (I := fun st => st.game.turn = s.game.turn)
    (fun _ _ hstep hq hst => (hstep.turn hq).trans hst) hquiet rfl

/-! ### The record -/

/-- Whether the player was asked and the player's turn has not ended since. -/
def promptStands (player : Color) : List Happening → Bool
  | [] => false
  | .suspended p _ _ :: before => p == player || promptStands player before
  | .turnEnded p :: before => p != player && promptStands player before
  | _ :: before => promptStands player before

theorem promptStands_plain (c : Color) {h : Happening} (hplain : h.isPlain = true)
    (trace : List Happening) : promptStands c (h :: trace) = promptStands c trace := by
  cases h with
  | suspended | turnEnded => cases hplain
  | _ => rfl

/-- The player has a prompt just when one stands by the trace, and it offers something. -/
structure Recorded (c : Color) (s : Stage) : Prop where
  stands : (s.game.seat c).selection.choosing = promptStands c s.trace
  offers : (s.game.seat c).selection.choosing = true →
    (s.game.seat c).selection.hexes ≠ [] ∨ (s.game.seat c).selection.cards ≠ []

theorem Recorded.of_selection {c : Color} (h : Recorded c s)
    (hsel : (s'.game.seat c).selection = (s.game.seat c).selection)
    (htrace : promptStands c s'.trace = promptStands c s.trace) : Recorded c s' :=
  ⟨by rw [hsel, htrace, h.stands], by rw [hsel]; exact h.offers⟩

theorem Step.recorded {c : Color} (h : Step asks ends s s') (hs : Recorded c s) :
    Recorded c s' := by
  cases h with
  | edit hf => exact hs.of_selection (hf.silent.selection s.game c) rfl
  | note h hplain => exact hs.of_selection rfl (promptStands_plain c hplain s.trace)
  | number | walk | handOver | ending => exact hs.of_selection rfl rfl
  | leave d =>
    by_cases hd : c = d
    · subst hd
      refine ⟨?_, ?_⟩
      · simp [Match.selection_setSelection_self, promptStands, Selection.none]
      · simp [Match.selection_setSelection_self, Selection.none]
    · refine hs.of_selection ?_ ?_
      · simp [Match.selection_setSelection_of_ne _ _ hd]
      · have hne : (d != c) = true := by simpa using fun h : d = c => hd h.symm
        simp [promptStands, hne]
  | consult _ hc =>
    cases hc with
    | waiting => exact hs
    | refused => exact hs.of_selection rfl rfl
    | answered choice later hchosen =>
      by_cases hd : c = s.game.turn
      · subst hd
        refine ⟨?_, ?_⟩
        · rw [Match.selection_setSelection_self]
          exact hs.stands
        · rw [Match.selection_setSelection_self]
          exact hs.offers
      · exact hs.of_selection (Match.selection_setSelection_of_ne _ _ hd) rfl
    | suspended _ _ hoffer =>
      by_cases hd : c = s.game.turn
      · subst hd
        refine ⟨?_, fun _ => ?_⟩
        · simp [Match.selection_setSelection_self, promptStands, Resolving.choosing_offer]
        · rw [Match.selection_setSelection_self]
          exact hoffer
      · refine hs.of_selection (Match.selection_setSelection_of_ne _ _ hd) ?_
        have hne : (s.game.turn == c) = false := by simpa using fun h : s.game.turn = c => hd h.symm
        simp [promptStands, hne]

theorem Steps.recorded {c : Color} (h : Steps asks ends s s') (hs : Recorded c s) :
    Recorded c s' := h.keeps (fun _ _ hstep => hstep.recorded) hs

/-! ### Questions -/

def Happening.isQuestion : Happening → Bool
  | .suspended .. | .answered .. => true
  | _ => false

/-- The choices that were asked for or answered. -/
def questions (trace : List Happening) : List Happening := trace.filter (·.isQuestion)

theorem Step.questions_eq (h : Step false ends s s') : questions s'.trace = questions s.trace := by
  cases h with
  | note h hplain => cases h <;> first | rfl | cases hplain
  | consult hasks => cases hasks
  | _ => rfl

theorem Steps.questions_eq (h : Steps false ends s s') :
    questions s'.trace = questions s.trace :=
  h.keeps (I := fun st => questions st.trace = questions s.trace)
    (fun _ _ hstep hst => hstep.questions_eq.trans hst) rfl

end HexDuel
