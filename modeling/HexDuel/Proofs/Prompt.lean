import HexDuel.Proofs.Reachable

/-!
Prompts. Whoever has one is to move in an undecided match, is offered something, and can name it
without being turned away.
-/

set_option autoImplicit false

namespace HexDuel

namespace Match

/-- The player to move is offered something. -/
structure Prompted (m : Match) (player : Color) : Prop where
  undecided : m.isOver = false
  turn : player = m.turn
  choosing : (m.seat player).selection.choosing = true
  offers : (m.seat player).selection.hexes ≠ [] ∨ (m.seat player).selection.cards ≠ []

variable {depth : Nat} {m m' : Match} {c : Command} {player : Color} {resumption : Resumption}
  {chosen : List Choice} {trace : List Happening}

theorem pending_abandon (m : Match) (player : Color) (r : Rejection) :
    (m.abandon player r).pending = none := by
  unfold abandon
  split
  · rename_i hnone
    exact hnone
  · rfl

theorem selection_suspend (m : Match) (player : Color) (resumption : Resumption)
    (offered : Selection) (chosen : List Choice) :
    ((m.suspend player resumption offered chosen).seat player).selection =
      { offered with chosen := chosen } := by
  cases player <;> rfl

theorem Attempted.prompted (h : Attempted depth m player resumption chosen m' trace)
    (hover : m.isOver = false) (hturn : player = m.turn) {p : Prompt}
    (hp : m'.pending = some p) : m'.Prompted p.player := by
  cases h with
  | rejected | refused => rw [pending_abandon] at hp; cases hp
  | carried => cases hp
  | suspended hrun _ hchoosing =>
    cases hp
    have hrecorded := (steps_perform hrun).recorded recorded_scratch
    refine ⟨hover, hturn, ?_, ?_⟩
    · rw [selection_suspend]
      exact hchoosing
    · rw [selection_suspend]
      exact hrecorded.offers hchoosing

theorem Prompted.of_notices (h : m.Prompted player) (hwinner : m'.winner = m.winner)
    (hturn : m'.turn = m.turn)
    (hsel : (m'.seat player).selection = (m.seat player).selection) : m'.Prompted player where
  undecided := by
    have hover := h.undecided
    unfold isOver at hover ⊢
    rwa [hwinner]
  turn := h.turn.trans hturn.symm
  choosing := by rw [hsel]; exact h.choosing
  offers := by rw [hsel]; exact h.offers

theorem Prompted.heard (h : m.Prompted player) : m.heard.Prompted player :=
  h.of_notices rfl rfl rfl

theorem Prompted.reject (h : m.Prompted player) (c : Color) (r : Rejection) :
    (m.reject c r).Prompted player := h.of_notices rfl rfl (selection_setStatus m c player _)

theorem Reachable.prompted (hm : m.Reachable) {p : Prompt} (hp : m.pending = some p) :
    m.Prompted p.player := by
  induction hm generalizing p with
  | @start _ m h =>
    have hnone : m.pending = none := congrArg Notices.pending (MatchSetup.notices_start h)
    rw [hnone] at hp
    cases hp
  | next hm h ih =>
    cases submitted h with
    -- An early refusal leaves the prompt that was there, and with it its player's record.
    | early => exact (ih hp).heard.reject _ _
    | started hover _ hturn _ h => exact h.prompted hover hturn hp
    | answered hover hprompt hplayer _ _ h =>
      exact h.prompted hover (hplayer ▸ (ih hprompt).turn) hp
    | passed _ hnone _ _ hrun =>
      have hkept := (steps_endOfTurn hrun).pending
      rw [hkept, hnone] at hp
      cases hp

/-! ### Refusals -/

theorem refusal_abandon (m : Match) (player : Color) (r : Rejection) :
    (m.abandon player r).refusal = some r := by
  unfold abandon
  split <;> rfl

/-- What is attempted is refused only for what the command finds once it has begun. -/
theorem Attempted.isLate (h : Attempted depth m player resumption chosen m' trace)
    (hm : m.refusal = none) {r : Rejection} (hr : m'.refusal = some r) : r.isLate = true := by
  cases h with
  | rejected r' hrun =>
    rw [refusal_abandon] at hr
    cases hr
    exact (Attempt.built_perform (Play.built_runner true depth) player resumption).2 r
      ⟨_, _, hrun⟩
  | refused r' hrun hrefusal =>
    rw [refusal_abandon] at hr
    cases hr
    obtain hkept | ⟨_, hnew⟩ := (steps_perform hrun).refusal
    · rw [hrefusal] at hkept
      cases hkept.trans hm
    · rw [hrefusal] at hnew
      cases hnew
      rfl
  | suspended => cases hm.symm.trans hr
  | carried hrun hrefusal _ hsettle =>
    cases hr.symm.trans ((steps_settle hsettle).refusal_eq.trans hrefusal)

/-- The answer to a prompt is attempted when it is on offer. -/
theorem submitTraced_answer (h : m.isOver = false) {p : Prompt} (hp : m.pending = some p)
    {x : Choice} (hx : (m.seat p.player).selection.allows x = true) :
    m.submitTraced depth (.chooseTarget p.player x) =
      m.heard.attempt depth p.player p.resumption
        ((m.seat p.player).selection.chosen ++ [x]) := by
  have hover : m.heard.isOver = false := h
  have hpending : m.heard.pending = some p := hp
  have hallows : (m.heard.seat p.player).selection.allows x = true := hx
  unfold submitTraced
  simp only [hover, hpending, Command.player, hallows, Bool.not_true, Bool.false_eq_true, ne_eq,
    not_true_eq_false, if_false]
  rfl

theorem exists_allowed {s : Selection} (h : s.hexes ≠ [] ∨ s.cards ≠ []) :
    ∃ x, s.allows x = true := by
  obtain hhexes | hcards := h
  · obtain ⟨hex, hmem⟩ := List.exists_mem_of_ne_nil _ hhexes
    exact ⟨.hex hex, by simpa [Selection.allows] using hmem⟩
  · obtain ⟨id, hmem⟩ := List.exists_mem_of_ne_nil _ hcards
    exact ⟨.card id, by simpa [Selection.allows] using hmem⟩

/-- No prompt is dead: it is the player's who is to move in an undecided match, it offers
something, and some answer to it is not turned away. -/
theorem Reachable.prompt_answerable (hm : m.Reachable) {p : Prompt} (hp : m.pending = some p) :
    m.winner = none ∧ p.player = m.turn ∧ (m.seat p.player).selection.choosing = true ∧
      ((m.seat p.player).selection.hexes ≠ [] ∨ (m.seat p.player).selection.cards ≠ []) ∧
      ∃ x, ∀ depth m' trace, m.submitTraced depth (.chooseTarget p.player x) = .ok (m', trace) →
        m'.refusal ≠ some .notYourTurn ∧ m'.refusal ≠ some .nothingToChoose ∧
          m'.refusal ≠ some .illegalTarget ∧ m'.refusal ≠ some .selectionPending := by
  have hprompted := hm.prompted hp
  refine ⟨by simpa [isOver] using hprompted.undecided, hprompted.turn, hprompted.choosing,
    hprompted.offers, ?_⟩
  obtain ⟨x, hx⟩ := exists_allowed hprompted.offers
  refine ⟨x, ?_⟩
  intro depth m' trace h
  rw [submitTraced_answer hprompted.undecided hp hx] at h
  have hlate : ∀ r, m'.refusal = some r → r.isLate = true := fun r =>
    (attempted h).isLate rfl
  refine ⟨?_, ?_, ?_, ?_⟩ <;>
  · intro hr
    cases hlate _ hr

/-- A player who may pick any object is asked for one and can name it. -/
theorem Reachable.prompt_answerable_solo :
    ∃ m p, Reachable m ∧ m.pending = some p ∧ m.winner = none ∧ p.player = m.turn ∧
      (m.seat p.player).selection.choosing = true ∧
      ((m.seat p.player).selection.hexes ≠ [] ∨ (m.seat p.player).selection.cards ≠ []) ∧
      ∃ x, ∀ depth m' trace, m.submitTraced depth (.chooseTarget p.player x) = .ok (m', trace) →
        m'.refusal ≠ some .notYourTurn ∧ m'.refusal ≠ some .nothingToChoose ∧
          m'.refusal ≠ some .illegalTarget ∧ m'.refusal ≠ some .selectionPending := by
  have hrun : ((MatchSetup.solo [.dealDamage (.choose (.piecesInPlay .any)) (.const 1)]).start.holds
      fun m => (m.submitTraced maxDepth .playSolo).holds fun x => x.1.pending.isSome) = true := by
    decide +kernel
  obtain ⟨m, hstart, hrun⟩ := Outcome.exists_of_holds hrun
  obtain ⟨⟨m', trace⟩, hplay, hpending⟩ := Outcome.exists_of_holds hrun
  obtain ⟨p, hp⟩ := Option.isSome_iff_exists.1 hpending
  have hm' : Reachable m' := (Reachable.start hstart).next hplay
  exact ⟨m', p, hm', hp, hm'.prompt_answerable hp⟩

end Match
end HexDuel
