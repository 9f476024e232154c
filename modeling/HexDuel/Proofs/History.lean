import HexDuel.Proofs.Lasting

/-!
What has been told stays told. Log, sounds and animations only grow at their ends, and the number of
the turn and the last number handed out never go back, whatever a command brings about. A command
that is refused or waits for an answer adds nothing: what it told it told on a copy of the match.
-/

set_option autoImplicit false

namespace HexDuel.Match

/-- All that was told is still told first, and no count has gone back. -/
structure Continues (m m' : Match) : Prop where
  log : m.log <+: m'.log
  sounds : m.sounds <+: m'.sounds
  animations : m.animations <+: m'.animations
  turnNumber : m.turnNumber ≤ m'.turnNumber
  lastId : m.lastId ≤ m'.lastId

/-- Nothing has been told, and nothing has been counted. -/
structure Silenced (m m' : Match) : Prop where
  log : m'.log = m.log
  sounds : m'.sounds = m.sounds
  animations : m'.animations = m.animations
  turnNumber : m'.turnNumber = m.turnNumber
  lastId : m'.lastId = m.lastId

variable {m m' m'' : Match}

namespace Silenced

theorem refl (m : Match) : m.Silenced m := ⟨rfl, rfl, rfl, rfl, rfl⟩

theorem trans (h : m.Silenced m') (h' : m'.Silenced m'') : m.Silenced m'' :=
  ⟨h'.log.trans h.log, h'.sounds.trans h.sounds, h'.animations.trans h.animations,
    h'.turnNumber.trans h.turnNumber, h'.lastId.trans h.lastId⟩

theorem changeSeat (m : Match) (c : Color) (f : Seat → Seat) : m.Silenced (m.changeSeat c f) :=
  ⟨rfl, rfl, rfl, rfl, rfl⟩

theorem withdrawAll (as : List Passive) (m : Match) : m.Silenced (m.withdrawAll as) := by
  induction as generalizing m with
  | nil => exact .refl m
  | cons a as ih =>
    have hfirst : m.Silenced (m.withdrawApplied a) := by
      unfold withdrawApplied
      split
      · unfold withdraw
        split <;> exact ⟨rfl, rfl, rfl, rfl, rfl⟩
      · exact .refl m
    exact hfirst.trans (ih _)

theorem takeTop (m : Match) (c : Color) : m.Silenced (m.takeTop c) := by
  unfold Match.takeTop
  dsimp only
  split <;> exact ⟨rfl, rfl, rfl, rfl, rfl⟩

theorem drawTop (m : Match) (c : Color) : m.Silenced (m.drawTop c) := by
  unfold Match.drawTop
  split
  · exact .refl m
  · exact (takeTop m c).trans (.changeSeat _ c _)

theorem burnTop (m : Match) (c : Color) : m.Silenced (m.burnTop c) := by
  unfold Match.burnTop
  split
  · exact .refl m
  · exact (takeTop m c).trans (.changeSeat _ c _)

theorem drawTimes (c : Color) (count : Nat) (m : Match) :
    m.Silenced (Play.drawTimes c count m) := by
  induction count generalizing m with
  | zero => exact .refl m
  | succ count ih =>
    unfold Play.drawTimes
    split
    · exact .refl m
    · exact (drawTop m c).trans (ih _)

theorem retold (h : m.Retold m') : m.Silenced m' := by
  obtain ⟨n, rfl⟩ := h
  exact ⟨rfl, rfl, rfl, rfl, rfl⟩

end Silenced

namespace Continues

theorem of_silenced (h : m.Silenced m') : m.Continues m' where
  log := h.log ▸ List.prefix_rfl
  sounds := h.sounds ▸ List.prefix_rfl
  animations := h.animations ▸ List.prefix_rfl
  turnNumber := Nat.le_of_eq h.turnNumber.symm
  lastId := Nat.le_of_eq h.lastId.symm

theorem refl (m : Match) : m.Continues m := of_silenced (.refl m)

theorem trans (h : m.Continues m') (h' : m'.Continues m'') : m.Continues m'' :=
  ⟨h.log.trans h'.log, h.sounds.trans h'.sounds, h.animations.trans h'.animations,
    Nat.le_trans h.turnNumber h'.turnNumber, Nat.le_trans h.lastId h'.lastId⟩

theorem addLog (m : Match) (c : Option Color) (text : String) (cards : List Card) :
    m.Continues (m.addLog c text cards) :=
  ⟨List.prefix_append _ _, List.prefix_rfl, List.prefix_rfl, Nat.le_refl _, Nat.le_refl _⟩

theorem playSound (m : Match) (sound : String) : m.Continues (m.playSound sound) :=
  ⟨List.prefix_rfl, List.prefix_append _ _, List.prefix_rfl, Nat.le_refl _, Nat.le_refl _⟩

theorem animate (m : Match) (a : Animation) : m.Continues (m.animate a) :=
  ⟨List.prefix_rfl, List.prefix_rfl, List.prefix_append _ _, Nat.le_refl _, Nat.le_refl _⟩

/-- A card that is discarded for want of room is told of. -/
theorem burnTimes (c : Color) (count : Nat) (m : Match) :
    m.Continues (Play.burnTimes c count m) := by
  induction count generalizing m with
  | zero => exact .refl m
  | succ count ih =>
    unfold Play.burnTimes
    split
    · exact .refl m
    · exact ((of_silenced (.burnTop m c)).trans (addLog _ _ _ _)).trans (ih _)

theorem giveBack (c : Color) (card : Card) (m : Match) :
    m.Continues (Play.giveBack c card m) := by
  unfold Play.giveBack
  split
  · exact (of_silenced (.changeSeat m c _)).trans (addLog _ _ _ _)
  · exact of_silenced (.changeSeat m c _)

theorem checkVictory (m : Match) : m.Continues m.checkVictory := by
  have hdeclared : ∀ winner, m.Continues (m.declareWinner winner) := by
    intro winner
    have hwon : m.Continues { m with winner := some winner } :=
      of_silenced ⟨rfl, rfl, rfl, rfl, rfl⟩
    unfold declareWinner
    dsimp only
    split <;> exact hwon.trans ((playSound _ _).trans (addLog _ _ _ _))
  unfold Match.checkVictory
  split
  · exact .refl m
  · split
    · exact hdeclared _
    · exact .refl m

end Continues
end HexDuel.Match

namespace HexDuel

theorem Edit.continues {f : Match → Match} (h : Edit f) (m : Match) : m.Continues (f m) := by
  have hsilenced : m.Silenced (f m) → m.Continues (f m) := .of_silenced
  cases h with
  | playSound sound => exact .playSound m sound
  | animate a => exact .animate m a
  | addLog c text cards => exact .addLog m c text cards
  | chime c =>
    dsimp only [Match.chime]
    split
    · exact .playSound m _
    · exact .refl m
  | checkVictory => exact .checkVictory m
  | giveBack c card => exact .giveBack c card m
  | deal c count => exact (Match.Continues.of_silenced (.drawTimes c _ m)).trans (.burnTimes c _ _)
  | takeControl owner id =>
    unfold Resolving.takeControl
    split
    · exact .refl m
    · split
      · exact .refl m
      · have hjoined : m.Continues (m.changePiece id (·.joining owner)) :=
          .of_silenced ⟨rfl, rfl, rfl, rfl, rfl⟩
        exact hjoined.trans (.addLog _ _ _ _)
  | nextTurn =>
    exact ⟨List.prefix_rfl, List.prefix_rfl, List.prefix_rfl, Nat.le_succ _, Nat.le_refl _⟩
  | moveTo id hex =>
    refine hsilenced ?_
    unfold Resolving.moveTo
    split <;> exact ⟨rfl, rfl, rfl, rfl, rfl⟩
  | withdrawApplied a => exact hsilenced (.withdrawAll [a] m)
  | dropDisabled =>
    have hdropped : m.Silenced (m.changeBoard (·.mapPieces (·.dropDisabled))) :=
      ⟨rfl, rfl, rfl, rfl, rfl⟩
    exact hsilenced (hdropped.trans (.withdrawAll _ _))
  | tickDurations =>
    have hcounted : m.Silenced (m.changeBoard (·.mapPieces (·.countDown))) :=
      ⟨rfl, rfl, rfl, rfl, rfl⟩
    exact hsilenced (hcounted.trans (.withdrawAll _ _))
  | adjustCostOf ability adjustment id =>
    refine hsilenced ?_
    unfold Resolving.adjustCostOf
    split <;> exact ⟨rfl, rfl, rfl, rfl, rfl⟩
  | discardFromHand id =>
    refine hsilenced ?_
    unfold Resolving.discardFromHand
    split
    · exact .refl m
    · split <;> exact ⟨rfl, rfl, rfl, rfl, rfl⟩
  | _ => exact hsilenced ⟨rfl, rfl, rfl, rfl, rfl⟩

/-- A prompt and a refusal are all that asking leaves behind. -/
theorem Resolving.Consulted.silenced {c : Collection} {ctx : Context} {x : Collection × Context}
    {s s' : Stage} (h : Resolving.Consulted c ctx s x s') : s.game.Silenced s'.game := by
  cases h <;> exact ⟨rfl, rfl, rfl, rfl, rfl⟩

theorem Step.continues {asks ends : Bool} {s s' : Stage} (h : Step asks ends s s') :
    s.game.Continues s'.game := by
  cases h with
  | edit hf => exact hf.continues s.game
  | number =>
    exact ⟨List.prefix_rfl, List.prefix_rfl, List.prefix_rfl, Nat.le_refl _, Nat.le_succ _⟩
  | consult _ hc => exact .of_silenced hc.silenced
  | note | walk | leave | handOver | ending =>
    exact .of_silenced ⟨rfl, rfl, rfl, rfl, rfl⟩

theorem Steps.continues {asks ends : Bool} {s s' : Stage} (h : Steps asks ends s s') :
    s.game.Continues s'.game :=
  h.keeps (I := fun st => s.game.Continues st.game) (fun _ _ hstep hs => hs.trans hstep.continues)
    (.refl s.game)

namespace Match

theorem lasting_continues (m₀ : Match) : Lasting (m₀.Continues ·) where
  retold _ _ htold hm := hm.trans (.of_silenced (.retold htold))
  acts _ _ h hs := hs.trans h.deeds.steps.continues

/-- History is only added to. With every command, and so with any number of commands one after the
other, log, sounds and animations are continued, and no count goes back; and with a command that is
refused or waits for an answer all of them stay as they are. -/
theorem history_append_only (depth : Nat) :
    (∀ (m m' : Match) (c : Command) (trace : List Happening),
      m.submitTraced depth c = .ok (m', trace) →
      m.Continues m' ∧ (m'.refusal ≠ none ∨ m'.pending ≠ none → m.Silenced m')) ∧
    ∀ (m m' : Match) (cs : List Command), m.course depth cs = .ok m' → m.Continues m' := by
  refine ⟨fun m m' c trace h => ⟨?_, fun hidle => ?_⟩, fun m m' cs h => ?_⟩
  · exact (lasting_continues m).submitTraced h (.refl m)
  · cases enacted h with
    | idle _ htold => exact .retold htold
    | done haccepted => exact hidle.elim (absurd haccepted.1) (absurd haccepted.2)
  · exact (lasting_continues m).course h (.refl m)

/-- Blue's card damages a core of blue's choice and logs it. Asked for a target blue has added
nothing yet, a second card has added nothing meanwhile, and the answer adds to what was told. -/
theorem history_append_only_solo :
    ∃ (m m₁ m₂ m₃ : Match) (x : Choice) (t₁ t₂ t₃ : List Happening), m.Reachable ∧
      m.submitTraced maxDepth .playSolo = .ok (m₁, t₁) ∧ m₁.pending ≠ none ∧ m.Silenced m₁ ∧
      m₁.submitTraced maxDepth .playSolo = .ok (m₂, t₂) ∧ m₂.refusal ≠ none ∧ m₁.Silenced m₂ ∧
      m₂.submitTraced maxDepth (.chooseTarget .blue x) = .ok (m₃, t₃) ∧ m₂.Continues m₃ ∧
      m₂.log.length < m₃.log.length ∧ m.Continues m₃ := by
  let x : Choice := .hex Color.orange.coreHex
  have hrun : ((MatchSetup.solo [.dealDamage (.choose (.piecesInPlay .any)) (.const 1)]).start.holds
      fun m => (m.submitTraced maxDepth .playSolo).holds fun y => y.1.pending.isSome &&
      (y.1.submitTraced maxDepth .playSolo).holds fun z => z.1.refusal.isSome &&
      (z.1.submitTraced maxDepth (.chooseTarget .blue x)).holds fun w =>
      decide (z.1.log.length < w.1.log.length)) = true := by
    decide +kernel
  obtain ⟨m, hstart, hrun⟩ := Outcome.exists_of_holds hrun
  obtain ⟨⟨m₁, t₁⟩, hplay, hrun⟩ := Outcome.exists_of_holds hrun
  obtain ⟨hasked, hrun⟩ := Bool.and_eq_true_iff.1 hrun
  obtain ⟨⟨m₂, t₂⟩, hagain, hrun⟩ := Outcome.exists_of_holds hrun
  obtain ⟨hrefused, hrun⟩ := Bool.and_eq_true_iff.1 hrun
  obtain ⟨⟨m₃, t₃⟩, hanswer, hlonger⟩ := Outcome.exists_of_holds hrun
  have hasked : m₁.pending ≠ none := Option.isSome_iff_ne_none.1 hasked
  have hrefused : m₂.refusal ≠ none := Option.isSome_iff_ne_none.1 hrefused
  obtain ⟨hone, hall⟩ := history_append_only maxDepth
  have hcourse : m.course maxDepth [.playSolo, .playSolo, .chooseTarget .blue x] = .ok m₃ := by
    rw [course_cons, hplay]
    change m₁.course maxDepth _ = _
    rw [course_cons, hagain]
    exact course_one hanswer
  exact ⟨m, m₁, m₂, m₃, x, t₁, t₂, t₃, .start hstart, hplay, hasked,
    (hone _ _ _ _ hplay).2 (.inr hasked), hagain, hrefused, (hone _ _ _ _ hagain).2 (.inl hrefused),
    hanswer, (hone _ _ _ _ hanswer).1, of_decide_eq_true hlonger, hall _ _ _ hcourse⟩

end Match
end HexDuel
