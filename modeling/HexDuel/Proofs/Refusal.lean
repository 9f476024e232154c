import HexDuel.Proofs.Dialogue

/-!
Refused commands are invisible: the match goes on as if they had never been sent, whether they are
refused at once, between a prompt and its answer, or after any number of prompts.
-/

set_option autoImplicit false

namespace HexDuel

namespace Match

variable {depth : Nat} {m m' m'' : Match} {c : Command} {trace : List Happening}
  {allowed : List Happening → Prop} {answers : List Choice} {posed : List Happening}

/-! ### Refused commands among others -/

/-- The match after one command after the other. -/
def course (depth : Nat) (m : Match) (cs : List Command) : Outcome Match :=
  cs.foldlM (fun m c => (m.submitTraced depth c).map (·.1)) m

theorem course_cons (depth : Nat) (m : Match) (c : Command) (cs : List Command) :
    m.course depth (c :: cs) =
      (m.submitTraced depth c).bind fun x => x.1.course depth cs := by
  unfold course
  rw [List.foldlM_cons]
  cases m.submitTraced depth c <;> rfl

theorem course_append (depth : Nat) (m : Match) (cs cs' : List Command) :
    m.course depth (cs ++ cs') = (m.course depth cs).bind fun m => m.course depth cs' := by
  unfold course
  rw [List.foldlM_append]
  rfl

theorem course_alike (h : m.muted = m'.muted) (cs : List Command) :
    (m.course depth cs).map muted = (m'.course depth cs).map muted := by
  induction cs generalizing m m' with
  | nil => exact congrArg Except.ok h
  | cons c cs ih =>
    have hsubmit : Outcome.Agree (Likeness.Ends fun m m' => m.hush = m'.hush)
        (m.submitTraced depth c) (m'.submitTraced depth c) := likeness_hush.submitTraced h c
    rw [course_cons, course_cons]
    generalize m.submitTraced depth c = x at hsubmit ⊢
    generalize m'.submitTraced depth c = y at hsubmit ⊢
    cases hsubmit with
    | ok hends => exact ih (congrArg heard hends.1)
    | error f => rfl

/-- A refused command that leaves the prompt alone might as well not have been sent. -/
theorem course_insert_refused {pre : List Command} (hpre : m.course depth pre = .ok m')
    (h : m'.submitTraced depth c = .ok (m'', trace)) (hr : m''.refusal.isSome = true)
    (hpending : m''.pending = m'.pending) (post : List Command) :
    (m.course depth (pre ++ c :: post)).map muted = (m.course depth (pre ++ post)).map muted := by
  obtain ⟨r, hr⟩ := Option.isSome_iff_exists.1 hr
  have hmuted : m''.muted = m'.muted := by
    obtain rfl | ⟨⟨p, hp, _⟩, rfl⟩ := refused_eq h hr
    · exact muted_reject m' c.player r
    · cases hpending.trans hp
  rw [course_append, course_append, hpre]
  change Except.map muted (m'.course depth (c :: post)) = Except.map muted (m'.course depth post)
  rw [course_cons, h]
  exact course_alike hmuted post

theorem Dialogue.pending_eq (h : Dialogue depth allowed m m' answers posed) : m.pending = none := by
  induction h with
  | asked hnone => exact hnone
  | interrupted _ _ _ _ ih => exact ih
  | answered _ _ _ _ _ ih => exact ih

/-- A command that is given up after any number of prompts leaves the match in which it was sent,
but for the targets of its player. -/
theorem Dialogue.abandoned (h : Dialogue depth allowed m m' answers posed)
    (hc : m'.submitTraced depth c = .ok (m'', trace)) (hr : m''.refusal.isSome = true)
    (hpending : m''.pending = none) : m''.muted = (m.setSelection c.player .none).muted := by
  have hrelease : ∀ player, (m.release player).muted = (m.setSelection player .none).muted := by
    intro player
    have hnone : m = { m with pending := none } := by rw [← h.pending_eq]
    rw [hnone]
    cases player <;> rfl
  obtain ⟨r, hr⟩ := Option.isSome_iff_exists.1 hr
  obtain ⟨p, m₁, st, hw⟩ := h.waiting
  obtain rfl | ⟨⟨q, hq, hplayer⟩, rfl⟩ := refused_eq hc hr
  · cases hw.pending.symm.trans hpending
  · cases hw.pending.symm.trans hq
    rw [muted_reject, ← hplayer, ← hrelease]
    exact hw.same

/-- Refused commands are invisible. Each leaves the match as it was but for the reason, the player's
status line and, when it gives up the player's command that waits for an answer, the prompt and its
targets. Whatever commands come before and after one that leaves the prompt alone, they have the
same effect without it, but for status lines and the last reason. One that is given up after any
number of prompts has changed nothing but these and the player's targets. -/
theorem refused_invisible (depth : Nat) :
    (∀ (m m' : Match) (c : Command) (trace : List Happening) (r : Rejection),
      m.submitTraced depth c = .ok (m', trace) → m'.refusal = some r →
      m' = m.reject c.player r ∨ (∃ p, m.pending = some p ∧ p.player = c.player) ∧
        m' = (m.release c.player).reject c.player r) ∧
    (∀ (m m₁ m₂ : Match) (pre post : List Command) (c : Command) (trace : List Happening),
      m.course depth pre = .ok m₁ → m₁.submitTraced depth c = .ok (m₂, trace) →
      m₂.refusal.isSome = true → m₂.pending = m₁.pending →
      (m.course depth (pre ++ c :: post)).map muted = (m.course depth (pre ++ post)).map muted) ∧
    ∀ (m m₁ m₂ : Match) (c : Command) (answers : List Choice) (posed trace : List Happening),
      Dialogue depth (fun _ => True) m m₁ answers posed →
      m₁.submitTraced depth c = .ok (m₂, trace) → m₂.refusal.isSome = true →
      m₂.pending = none → m₂.muted = (m.setSelection c.player .none).muted := by
  refine ⟨?_, ?_, ?_⟩
  · intro m m' c trace r h hr
    exact refused_eq h hr
  · intro m m₁ m₂ pre post c trace hpre h hr hpending
    exact course_insert_refused hpre h hr hpending post
  · intro m m₁ m₂ c answers posed trace h hc hr hpending
    exact h.abandoned hc hr hpending

/-- A card whose second target is not to be had is given up after the first prompt. -/
theorem refused_invisible_solo :
    ∃ (m m₁ m₂ : Match) (x : Choice) (posed trace : List Happening),
      Dialogue maxDepth (fun _ => True) m m₁ [] posed ∧
      m₁.submitTraced maxDepth (.chooseTarget .blue x) = .ok (m₂, trace) ∧
      m₂.refusal.isSome = true ∧ m₂.pending = none ∧
      m₂.muted = (m.setSelection .blue .none).muted := by
  let x : Choice := .hex Color.orange.coreHex
  have hrun : ((MatchSetup.solo [.dealDamage (.choose (.piecesInPlay .any)) (.const 1),
      .dealDamage (.choose (.piecesInPlay (.only .robot))) (.const 2)]).start.holds fun m =>
      m.pending.isNone && (m.submitTraced maxDepth .playSolo).holds fun y => y.1.pending.isSome &&
      (y.1.submitTraced maxDepth (.chooseTarget .blue x)).holds fun z =>
      z.1.refusal.isSome && z.1.pending.isNone) = true := by
    decide +kernel
  obtain ⟨m, hstart, hrun⟩ := Outcome.exists_of_holds hrun
  simp only [Bool.and_eq_true, Option.isNone_iff_eq_none] at hrun
  obtain ⟨hnone, hrun⟩ := hrun
  obtain ⟨⟨m₁, posed⟩, hplay, hrun⟩ := Outcome.exists_of_holds hrun
  simp only [Bool.and_eq_true] at hrun
  obtain ⟨hasked, hrun⟩ := hrun
  obtain ⟨⟨m₂, trace⟩, hanswer, hrun⟩ := Outcome.exists_of_holds hrun
  simp only [Bool.and_eq_true, Option.isNone_iff_eq_none] at hrun
  obtain ⟨hr, hpending⟩ := hrun
  have hdialogue : Dialogue maxDepth (fun _ => True) m m₁ [] posed :=
    .asked hnone hplay hasked trivial
  exact ⟨m, m₁, m₂, x, posed, trace, hdialogue, hanswer, hr, hpending,
    (refused_invisible maxDepth).2.2 m m₁ m₂ (.chooseTarget .blue x) [] posed trace hdialogue
      hanswer hr hpending⟩

end Match
end HexDuel
