import HexDuel.Proofs.Alike
import HexDuel.Proofs.Prompt

/-!
Commands that wait for an answer. What a refusal leaves of them, and what stays of a dialogue: at
every prompt the match is the one in which the command was sent, and the prompt is what the last run
of the command came to with the answers given so far.
-/

set_option autoImplicit false

namespace HexDuel

namespace Match

variable {depth : Nat} {m m' m'' : Match} {c : Command} {player : Color} {resumption : Resumption}
  {chosen : List Choice} {trace : List Happening}

/-! ### What a refusal leaves -/

theorem Attempted.refused_eq (h : Attempted depth m player resumption chosen m' trace)
    (hm : m.refusal = none) {r : Rejection} (hr : m'.refusal = some r) :
    m' = m.abandon player r := by
  cases h with
  | rejected | refused =>
    rw [refusal_abandon] at hr
    cases hr
    rfl
  | suspended => cases hm.symm.trans hr
  | carried _ hrefusal _ hsettle =>
    cases hr.symm.trans ((steps_settle hsettle).refusal_eq.trans hrefusal)

/-- A refused command is rejected, or the player's command that waits for an answer is given up. -/
theorem refused_eq (h : m.submitTraced depth c = .ok (m', trace)) {r : Rejection}
    (hr : m'.refusal = some r) :
    m' = m.reject c.player r ∨
      (∃ p, m.pending = some p ∧ p.player = c.player) ∧
        m' = (m.release c.player).reject c.player r := by
  cases submitted h with
  | early r' =>
    cases hr
    exact .inl rfl
  | started _ hpending _ _ h =>
    have heq := h.refused_eq rfl hr
    unfold abandon at heq
    rw [hpending] at heq
    exact .inl heq
  | answered _ hprompt hplayer _ _ h =>
    have heq := h.refused_eq rfl hr
    unfold abandon at heq
    rw [hprompt] at heq
    exact .inr ⟨⟨_, hprompt, hplayer⟩, heq⟩
  | passed _ _ _ _ hrun =>
    cases hr.symm.trans (steps_endOfTurn hrun).refusal_eq

/-! ### Prompts -/

/-- With these answers the command came this far, and the player is asked for another. -/
structure Posed (depth : Nat) (m : Match) (p : Prompt) (answers : List Choice) (st : Stage) :
    Prop where
  unrefused : m.refusal = none
  run : (Attempt.perform (Play.runner depth) p.player p.resumption).run.run
    (m.scratch p.player answers) = .ok (.ok (), st)
  refusal : st.game.refusal = none
  choosing : (st.game.seat p.player).selection.choosing = true

/-- What the match shows of it. -/
def shown (m : Match) (p : Prompt) (answers : List Choice) (st : Stage) : Match :=
  m.suspend p.player p.resumption (st.game.seat p.player).selection answers

theorem Attempted.posed (h : Attempted depth m player resumption chosen m' trace)
    (hm : m.refusal = none) (hpending : m'.pending.isSome = true) :
    ∃ st, Posed depth m ⟨player, resumption⟩ chosen st ∧
      m' = m.shown ⟨player, resumption⟩ chosen st ∧ trace = st.trace := by
  cases h with
  | rejected | refused => rw [pending_abandon] at hpending; cases hpending
  | carried => cases hpending
  | suspended hrun hrefusal hchoosing => exact ⟨_, ⟨hm, hrun, hrefusal, hchoosing⟩, rfl, rfl⟩

/-- A command that leads to a prompt. -/
theorem posed_of_asked (hnone : m.pending = none) (h : m.submitTraced depth c = .ok (m', trace))
    (hpending : m'.pending.isSome = true) :
    ∃ p st, p.player = m.turn ∧ Posed depth m.heard p [] st ∧ m' = m.heard.shown p [] st ∧
      trace = st.trace := by
  cases submitted h with
  | early r =>
    have hkept : (m.heard.reject c.player r).pending = none := hnone
    rw [hkept] at hpending
    cases hpending
  | started _ _ hturn _ h =>
    obtain ⟨st, hposed, hshown, htrace⟩ := h.posed rfl hpending
    exact ⟨_, st, hturn, hposed, hshown, htrace⟩
  | answered _ hprompt => cases hnone.symm.trans hprompt
  | passed _ _ _ _ hrun =>
    have hkept := (steps_endOfTurn hrun).pending.trans hnone
    rw [hkept] at hpending
    cases hpending

/-- An answer that leads to the next prompt. -/
theorem posed_of_answered {x : Choice}
    (h : m.submitTraced depth (.chooseTarget player x) = .ok (m', trace)) (hr : m'.refusal = none)
    (hpending : m'.pending.isSome = true) :
    ∃ p st, m.pending = some p ∧
      Posed depth m.heard p ((m.seat p.player).selection.chosen ++ [x]) st ∧
      m' = m.heard.shown p ((m.seat p.player).selection.chosen ++ [x]) st ∧ trace = st.trace := by
  cases submitted h with
  | early => cases hr
  | started _ _ _ hresumption => cases hresumption
  | passed _ _ _ hpass => cases hpass
  | @answered p x' _ _ _ hprompt hplayer hc _ h =>
    cases hc
    obtain ⟨st, hposed, hshown, htrace⟩ := h.posed rfl hpending
    obtain ⟨owner, resumption⟩ := p
    cases hplayer
    exact ⟨_, st, hprompt, hposed, hshown, htrace⟩

/-! ### Dialogues -/

/-- A command sent in the match `m` waits for an answer: the match as it stands, the answers given
so far, and what happened when the command was last run. In between, commands may be refused. -/
inductive Dialogue (depth : Nat) (allowed : List Happening → Prop) (m : Match) :
    Match → List Choice → List Happening → Prop where
  | asked {c : Command} {m' : Match} {trace : List Happening} : m.pending = none →
    m.submitTraced depth c = .ok (m', trace) → m'.pending.isSome = true → allowed trace →
    Dialogue depth allowed m m' [] trace
  | interrupted {c : Command} {m' m'' : Match} {answers : List Choice}
    {posed trace : List Happening} : Dialogue depth allowed m m' answers posed →
    m'.submitTraced depth c = .ok (m'', trace) → m''.refusal.isSome = true →
    m''.pending = m'.pending → Dialogue depth allowed m m'' answers posed
  | answered {player : Color} {x : Choice} {m' m'' : Match} {answers : List Choice}
    {posed trace : List Happening} : Dialogue depth allowed m m' answers posed →
    m'.submitTraced depth (.chooseTarget player x) = .ok (m'', trace) → m''.refusal = none →
    m''.pending.isSome = true → allowed trace →
    Dialogue depth allowed m m'' (answers ++ [x]) trace

theorem muted_reject (m : Match) (player : Color) (r : Rejection) :
    (m.reject player r).muted = m.muted := by cases player <;> rfl

theorem muted_release_suspend (m : Match) (player : Color) (resumption : Resumption)
    (offered : Selection) (chosen : List Choice) :
    ((m.suspend player resumption offered chosen).release player).muted =
      (m.release player).muted := by cases player <;> rfl

theorem muted_release_reject (m : Match) (player c : Color) (r : Rejection) :
    ((m.reject c r).release player).muted = (m.release player).muted := by
  cases player <;> cases c <;> rfl

/-- How things stand in a dialogue: the match but for the prompt, and the last run of the command,
which was on a match that is the same but for the prompt, too. -/
structure Waiting (depth : Nat) (m m' : Match) (answers : List Choice) (posed : List Happening)
    (p : Prompt) (m₁ : Match) (st : Stage) : Prop where
  pending : m'.pending = some p
  same : (m'.release p.player).muted = (m.release p.player).muted
  ran : (m₁.release p.player).muted = (m.release p.player).muted
  asked : Posed depth m₁ p answers st
  offered : (m'.seat p.player).selection =
    { (st.game.seat p.player).selection with chosen := answers }
  posed : posed = st.trace

variable {allowed : List Happening → Prop} {answers : List Choice} {posed : List Happening}

theorem Dialogue.waiting (h : Dialogue depth allowed m m' answers posed) :
    ∃ p m₁ st, Waiting depth m m' answers posed p m₁ st := by
  induction h with
  | asked hnone h hpending =>
    obtain ⟨p, st, _, hposed, rfl, rfl⟩ := posed_of_asked hnone h hpending
    exact ⟨p, m.heard, st, rfl, muted_release_suspend _ _ _ _ _, rfl, hposed,
      selection_suspend _ _ _ _ _, rfl⟩
  | interrupted _ h hr hpending ih =>
    obtain ⟨p, m₁, st, hw⟩ := ih
    obtain ⟨r, hr⟩ := Option.isSome_iff_exists.1 hr
    obtain rfl | ⟨⟨q, hq, _⟩, rfl⟩ := refused_eq h hr
    · refine ⟨p, m₁, st, hw.pending, ?_, hw.ran, hw.asked, ?_, hw.posed⟩
      · rw [muted_release_reject, hw.same]
      · rw [← hw.offered]
        exact selection_setStatus _ _ _ _
    -- Had the command been given up, its prompt would be gone.
    · cases hpending.trans hq
  | answered _ h hr hpending _ ih =>
    obtain ⟨p, m₁, st, hw⟩ := ih
    obtain ⟨q, st', hq, hposed, rfl, rfl⟩ := posed_of_answered h hr hpending
    cases hw.pending.symm.trans hq
    rw [hw.offered] at hposed ⊢
    refine ⟨p, _, st', rfl, ?_, ?_, hposed, selection_suspend _ _ _ _ _, rfl⟩
    · exact (muted_release_suspend _ _ _ _ _).trans hw.same
    · exact hw.same

end Match
end HexDuel
