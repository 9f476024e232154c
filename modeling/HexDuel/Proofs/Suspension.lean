import HexDuel.Proofs.Prompt

/-!
What becomes of a command in whose course a player is asked for a target. It waits for the answer or
is refused, and leaves the rest of the match alone, exactly as long as no action ends that player's
turn later in the same resolution: the end of a turn takes the prompt away, and nothing then keeps
the half-resolved command from being carried out.
-/

set_option autoImplicit false

namespace HexDuel

variable {asks ends : Bool} {s s' : Stage}

def Happening.isSuspension : Happening → Bool
  | .suspended .. => true
  | _ => false

/-- Whether a player was asked for a target. -/
def hasSuspension (trace : List Happening) : Bool := trace.any (·.isSuspension)

/-! ### Prompts in a resolution -/

/-- Unless an action has ended the turn, it is that player's, and whatever was asked stands. -/
def Standing (player : Color) (s : Stage) : Prop :=
  endsTurn s.trace = true ∨
    s.game.turn = player ∧ (hasSuspension s.trace = true → promptStands player s.trace = true)

theorem Step.standing {player : Color} (h : Step asks false s s') (hs : Standing player s) :
    Standing player s' := by
  obtain hends | ⟨hturn, hstands⟩ := hs
  · exact .inl (any_of_suffix h.trace_suffix hends)
  · cases h with
    | edit hf => exact .inr ⟨(hf.silent.turn s.game).trans hturn, hstands⟩
    | note h hplain =>
      refine .inr ⟨hturn, fun hasked => ?_⟩
      rw [promptStands_plain player hplain]
      refine hstands ?_
      cases h <;> first | exact hasked | cases hplain
    | number | walk => exact .inr ⟨hturn, hstands⟩
    | leave c hends => exact .inl (by simpa [endsTurn, Happening.endsTurn] using hends)
    | handOver c hends => exact .inl (by simpa using hends)
    | ending => exact .inl rfl
    | consult _ hc =>
      cases hc with
      | waiting | refused | answered => exact .inr ⟨hturn, hstands⟩
      | suspended => exact .inr ⟨hturn, fun _ => by simp [promptStands, hturn]⟩

theorem Steps.standing {player : Color} (h : Steps asks false s s') (hs : Standing player s) :
    Standing player s' := h.keeps (fun _ _ hstep => hstep.standing) hs

/-- No prompt comes to stand where nobody can be asked. -/
theorem Step.not_promptStands {player : Color} (h : Step false ends s s')
    (hs : promptStands player s.trace = false) : promptStands player s'.trace = false := by
  cases h with
  | note h hplain => rwa [promptStands_plain player hplain]
  | leave c => simp [promptStands, hs]
  | consult hasks => cases hasks
  | _ => exact hs

theorem Steps.not_promptStands {player : Color} (h : Steps false ends s s')
    (hs : promptStands player s.trace = false) : promptStands player s'.trace = false :=
  h.keeps (I := fun st => promptStands player st.trace = false)
    (fun _ _ hstep => hstep.not_promptStands) hs

theorem Steps.not_hasSuspension (h : Steps false ends s s')
    (hs : hasSuspension s.trace = false) : hasSuspension s'.trace = false := by
  have hkept : ∀ trace : List Happening,
      hasSuspension trace = (questions trace).any (·.isSuspension) := by
    intro trace
    rw [questions, List.any_filter]
    exact congrArg trace.any (funext fun n => by cases n <;> rfl)
  rw [hkept, h.questions_eq, ← hkept]
  exact hs

namespace Match

/-- The same but for what a prompt changes: the refusal, the pending prompt, and the player's
targets and status line. -/
def SameBut (player : Color) (m m' : Match) : Prop :=
  ∃ refusal pending selection status,
    m' = { (m.setSelection player selection).setStatus player status with
      refusal := refusal, pending := pending }

/-- The command waits for an answer of the player's. -/
def Waits (player : Color) (m m' : Match) : Prop :=
  (∃ resumption, m'.pending = some ⟨player, resumption⟩) ∧ SameBut player m m'

variable {depth : Nat} {m m' : Match} {c : Command} {player : Color} {resumption : Resumption}
  {chosen : List Choice} {trace : List Happening}

theorem waits_suspend (m : Match) (player : Color) (resumption : Resumption) (offered : Selection)
    (chosen : List Choice) : m.Waits player (m.heard.suspend player resumption offered chosen) :=
  ⟨⟨resumption, rfl⟩, none, _, _, _, rfl⟩

theorem Attempted.suspension (h : Attempted depth m.heard player resumption chosen m' trace)
    (hturn : player = m.turn) (hasked : hasSuspension trace = true) :
    ((m'.refusal.isSome ∨ m.Waits player m') ↔
      m'.refusal.isSome ∨ promptStands player trace = true) ∧
    (endsTurn trace = false → m'.refusal.isSome ∨ m.Waits player m') := by
  cases h with
  | rejected r | refused r =>
    have hrefused : (m.heard.abandon player r).refusal.isSome = true := by
      rw [refusal_abandon]; rfl
    exact ⟨⟨fun _ => .inl hrefused, fun _ => .inl hrefused⟩, fun _ => .inl hrefused⟩
  | @suspended st hrun hrefusal hchoosing =>
    have hstands : promptStands player st.trace = true := by
      rw [← ((steps_perform hrun).recorded recorded_scratch).stands]
      exact hchoosing
    have hwaits := waits_suspend m player resumption (st.game.seat player).selection chosen
    exact ⟨⟨fun _ => .inr hstands, fun _ => .inr hwaits⟩, fun _ => .inr hwaits⟩
  | @carried st st' hrun hrefusal hchoosing hsettle =>
    have hsteps := steps_perform hrun
    have hlater := steps_settle hsettle
    -- The command ended without a prompt, and settling asks nobody.
    have hnot : promptStands player st.trace = false := by
      rw [← (hsteps.recorded recorded_scratch).stands]
      exact hchoosing
    have hkept := hlater.not_promptStands hnot
    have hdone : st'.game.refusal = none := hlater.refusal_eq.trans hrefusal
    refine ⟨⟨?_, ?_⟩, ?_⟩
    · rintro (hr | ⟨⟨_, hpending⟩, _⟩)
      · exact .inl hr
      · cases hpending
    · rintro (hr | hstands)
      · exact .inl hr
      · rw [hkept] at hstands
        cases hstands
    · intro hquiet
      have hstart : Standing player (m.heard.scratch player chosen) :=
        .inr ⟨hturn.symm, fun h => nomatch h⟩
      obtain hends | ⟨_, hstands⟩ := hlater.standing (hsteps.standing hstart)
      · rw [hquiet] at hends
        cases hends
      · rw [hstands hasked] at hkept
        cases hkept

/-- A command in whose course somebody was asked for a target is refused, or waits for the player
and changes nothing else, exactly when it is refused or the player's prompt still stands at its end;
and so it is whenever no action has ended the turn. -/
theorem Reachable.waits_iff_promptStands (hm : m.Reachable)
    (h : m.submitTraced depth c = .ok (m', trace)) (hasked : hasSuspension trace = true) :
    ((m'.refusal.isSome ∨ m.Waits c.player m') ↔
      m'.refusal.isSome ∨ promptStands c.player trace = true) ∧
    (endsTurn trace = false → m'.refusal.isSome ∨ m.Waits c.player m') := by
  cases submitted h with
  | early => cases hasked
  | started _ _ hturn _ h => exact h.suspension hturn hasked
  | answered _ hprompt hplayer _ _ h =>
    exact h.suspension (hplayer ▸ (hm.prompted hprompt).turn) hasked
  | passed _ _ _ _ hrun =>
    rw [(steps_endOfTurn hrun).not_hasSuspension rfl] at hasked
    cases hasked

/-- A card that asks for a target, and nothing else. -/
theorem Reachable.waits_solo :
    ∃ m m' trace, Reachable m ∧ m.submitTraced maxDepth .playSolo = .ok (m', trace) ∧
      hasSuspension trace = true ∧
      ((m'.refusal.isSome ∨ m.Waits Command.playSolo.player m') ↔
        m'.refusal.isSome ∨ promptStands Command.playSolo.player trace = true) ∧
      (endsTurn trace = false → m'.refusal.isSome ∨ m.Waits Command.playSolo.player m') := by
  have hrun : ((MatchSetup.solo [.dealDamage (.choose (.piecesInPlay .any)) (.const 1)]).start.holds
      fun m => (m.submitTraced maxDepth .playSolo).holds fun x => hasSuspension x.2) = true := by
    decide +kernel
  obtain ⟨m, hstart, hrun⟩ := Outcome.exists_of_holds hrun
  obtain ⟨⟨m', trace⟩, hplay, hasked⟩ := Outcome.exists_of_holds hrun
  have hm : Reachable m := .start hstart
  exact ⟨m, m', trace, hm, hplay, hasked, hm.waits_iff_promptStands hplay hasked⟩

/-- When the same card also ends the turn it is carried out half-resolved: its player is asked for a
target, and yet the command neither waits for the answer nor is refused. -/
theorem half_resolved_solo :
    ∃ m m' trace, Reachable m ∧ m.submitTraced maxDepth .playSolo = .ok (m', trace) ∧
      hasSuspension trace = true ∧
      ¬ (m'.refusal.isSome ∨ m.Waits Command.playSolo.player m') := by
  have hrun : ((MatchSetup.solo
      [.dealDamage (.choose (.piecesInPlay .any)) (.const 1), .endTurn]).start.holds
      fun m => (m.submitTraced maxDepth .playSolo).holds fun x =>
        hasSuspension x.2 && x.1.refusal.isNone && x.1.pending.isNone) = true := by
    decide +kernel
  obtain ⟨m, hstart, hrun⟩ := Outcome.exists_of_holds hrun
  obtain ⟨⟨m', trace⟩, hplay, hend⟩ := Outcome.exists_of_holds hrun
  simp only [Bool.and_eq_true, Option.isNone_iff_eq_none] at hend
  obtain ⟨⟨hasked, hrefusal⟩, hpending⟩ := hend
  refine ⟨m, m', trace, .start hstart, hplay, hasked, ?_⟩
  rintro (hr | ⟨⟨_, hp⟩, _⟩)
  · rw [hrefusal] at hr
    cases hr
  · rw [hpending] at hp
    cases hp

end Match
end HexDuel
