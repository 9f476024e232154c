import HexDuel.Proofs.Likeness
import HexDuel.Proofs.Reachable
import Mathlib.Data.List.Forall2

/-!
Names and the point of view a match is kept for. They show in the texts of the log and in the
sounds; nothing that is played depends on them.
-/

set_option autoImplicit false

namespace HexDuel

/-- Who did it and with which cards, whatever it reads like and whenever it was. -/
def LogEntry.unworded (e : LogEntry) : LogEntry := { e with text := "", time := 0 }

namespace Match

/-- The match without names and point of view, and without what is made for them: the sounds and
the wording of the log. -/
def impersonal (m : Match) : Match :=
  { m with
    usernames := ⟨"", ""⟩
    viewpoint := .blue
    sounds := []
    log := m.log.map (·.unworded) }

@[simp] theorem impersonal_impersonal (m : Match) : m.impersonal.impersonal = m.impersonal := by
  have hlog : m.impersonal.log.map (·.unworded) = m.impersonal.log := List.map_map
  unfold impersonal at hlog ⊢
  rw [hlog]

/-- Matches in which the same was played. -/
def SamePlay (m m' : Match) : Prop := m.impersonal = m'.impersonal

/-- What the change does goes by the impersonal match. -/
def Impartial (f : Match → Match) : Prop :=
  ∀ m : Match, (f m.impersonal).impersonal = (f m).impersonal

namespace Impartial
variable {f g : Match → Match} {m m' : Match}

theorem samePlay (hf : Impartial f) (h : m.SamePlay m') : (f m).SamePlay (f m') := by
  unfold SamePlay at h ⊢
  rw [← hf m, h, hf m']

/-- So it is when the change leaves alone what is not impersonal. -/
theorem plain (h : ∀ m : Match, f m.impersonal = (f m).impersonal) : Impartial f := by
  intro m
  rw [h, impersonal_impersonal]

theorem comp (hf : Impartial f) (hg : Impartial g) : Impartial fun m => g (f m) := by
  intro m
  exact hg.samePlay (hf m)

theorem foldl {α : Type} {f : α → Match → Match} (hf : ∀ a, Impartial (f a)) (as : List α) :
    Impartial fun m => as.foldl (fun m a => f a m) m := by
  induction as with
  | nil => exact plain fun _ => rfl
  | cons a as ih => exact (hf a).comp ih

end Impartial

/-! ### The changes, one by one -/

theorem impartial_changeSeat (c : Color) (f : Seat → Seat) : Impartial (·.changeSeat c f) :=
  .plain fun _ => rfl

theorem impartial_changeBoard (f : Board → Board) : Impartial (·.changeBoard f) :=
  .plain fun _ => rfl

theorem impartial_addLog (c : Option Color) (text : String) (cards : List Card) :
    Impartial (·.addLog c text cards) := by
  intro m
  simp [impersonal, addLog, LogEntry.unworded]

theorem impartial_playSound (sound : String) : Impartial (·.playSound sound) := by
  intro m
  simp [impersonal, playSound, LogEntry.unworded]

theorem impartial_chime (c : Color) : Impartial (·.chime c) := by
  intro m
  have hsound : ∀ m : Match, (m.chime c).impersonal = m.impersonal := by
    intro m
    unfold chime
    split <;> rfl
  rw [hsound, hsound, impersonal_impersonal]

theorem impartial_moveTo (id : PieceId) (hex : Hex) : Impartial (Resolving.moveTo id hex) := by
  refine .plain fun m => ?_
  have hboard : m.impersonal.board = m.board := rfl
  unfold Resolving.moveTo
  rw [hboard]
  split <;> rfl

theorem impartial_takeControl (owner : Color) (id : PieceId) :
    Impartial (Resolving.takeControl owner id) := by
  intro m
  have hboard : m.impersonal.board = m.board := rfl
  unfold Resolving.takeControl
  rw [hboard]
  cases m.board.get? id with
  | none => exact impersonal_impersonal m
  | some p =>
    dsimp only
    split
    · exact impersonal_impersonal m
    · exact ((impartial_changeBoard _).comp (impartial_addLog (some owner) _ [p.card])) m

theorem impartial_withdrawApplied (a : Passive) : Impartial (·.withdrawApplied a) := by
  refine .plain fun m => ?_
  unfold withdrawApplied
  split
  · unfold withdraw
    cases a.effect <;> rfl
  · rfl

theorem impartial_withdrawAll (as : List Passive) : Impartial (·.withdrawAll as) :=
  Impartial.foldl impartial_withdrawApplied as

theorem impartial_tickDurations : Impartial (·.tickDurations) := fun m =>
  ((impartial_changeBoard (·.mapPieces (·.countDown))).comp (impartial_withdrawAll _)) m

theorem impartial_dropDisabled : Impartial (·.dropDisabled) := fun m =>
  ((impartial_changeBoard (·.mapPieces (·.dropDisabled))).comp (impartial_withdrawAll _)) m

theorem impartial_adjustCostOf (ability : AbilityId) (adjustment : Adjustment) (id : CardId) :
    Impartial (Resolving.adjustCostOf ability adjustment id) := by
  refine .plain fun m => ?_
  have hholder : m.impersonal.holderOf? id = m.holderOf? id := rfl
  unfold Resolving.adjustCostOf
  rw [hholder]
  cases m.holderOf? id <;> rfl

theorem impartial_discardFromHand (id : CardId) : Impartial (Resolving.discardFromHand id) := by
  refine .plain fun m => ?_
  have hholder : m.impersonal.holderOf? id = m.holderOf? id := rfl
  have hseat : ∀ c, m.impersonal.seat c = m.seat c := fun _ => rfl
  unfold Resolving.discardFromHand
  rw [hholder]
  cases m.holderOf? id with
  | none => rfl
  | some holder =>
    dsimp only
    rw [hseat]
    cases (m.seat holder).cardInHand? id <;> rfl

theorem impartial_giveBack (c : Color) (card : Card) : Impartial (Play.giveBack c card) := by
  intro m
  have hhand : (m.impersonal.seat c).hand = (m.seat c).hand := rfl
  have hlimits : m.impersonal.limits = m.limits := rfl
  unfold Play.giveBack
  rw [hhand, hlimits]
  split
  · exact ((impartial_changeSeat c _).comp (impartial_addLog (some c) _ [])) m
  · exact impartial_changeSeat c _ m

theorem impartial_takeTop (c : Color) : Impartial (·.takeTop c) := by
  refine .plain fun m => ?_
  unfold takeTop
  cases hformat : m.format <;> simp [hformat, impersonal, changeSeat]

theorem impartial_drawTop (c : Color) : Impartial (·.drawTop c) := by
  intro m
  have htop : m.impersonal.topCard? c = m.topCard? c := rfl
  unfold drawTop
  dsimp only
  rw [htop]
  cases m.topCard? c with
  | none => exact impersonal_impersonal m
  | some card => exact ((impartial_takeTop c).comp (impartial_changeSeat c _)) m

theorem impartial_burnTop (c : Color) : Impartial (·.burnTop c) := by
  intro m
  have htop : m.impersonal.topCard? c = m.topCard? c := rfl
  unfold burnTop
  dsimp only
  rw [htop]
  cases m.topCard? c with
  | none => exact impersonal_impersonal m
  | some card => exact ((impartial_takeTop c).comp (impartial_changeSeat c _)) m

theorem impartial_drawTimes (c : Color) (count : Nat) : Impartial (Play.drawTimes c count) := by
  induction count with
  | zero => exact impersonal_impersonal
  | succ count ih =>
    intro m
    have htop : m.impersonal.topCard? c = m.topCard? c := rfl
    unfold Play.drawTimes
    rw [htop]
    split
    · exact impersonal_impersonal m
    · exact ((impartial_drawTop c).comp ih) m

theorem impartial_burnTimes (c : Color) (count : Nat) : Impartial (Play.burnTimes c count) := by
  induction count with
  | zero => exact impersonal_impersonal
  | succ count ih =>
    intro m
    have htop : m.impersonal.topCard? c = m.topCard? c := rfl
    unfold Play.burnTimes
    rw [htop]
    split
    · exact impersonal_impersonal m
    · exact (((impartial_burnTop c).comp (impartial_addLog _ _ [])).comp ih) m

theorem impartial_deal (c : Color) (count : Nat) : Impartial (Play.deal c count) := by
  intro m
  have hroom : Play.room m.impersonal c = Play.room m c := rfl
  unfold Play.deal
  rw [hroom]
  exact ((impartial_drawTimes c _).comp (impartial_burnTimes c _)) m

theorem impartial_declareWinner (winner : Color) : Impartial (·.declareWinner winner) := by
  intro m
  have hwon : ∀ m : Match, (m.declareWinner winner).impersonal =
      { m.impersonal with
        winner := some winner
        log := m.impersonal.log ++ [⟨some winner, "", 0, []⟩] } := by
    intro m
    unfold declareWinner
    dsimp only
    split <;> simp [impersonal, addLog, playSound, LogEntry.unworded]
  rw [hwon, hwon, impersonal_impersonal]

theorem impartial_checkVictory : Impartial (·.checkVictory) := by
  intro m
  have hwinner : m.impersonal.winner = m.winner := rfl
  have hboard : m.impersonal.board = m.board := rfl
  unfold checkVictory
  dsimp only
  rw [hwinner, hboard]
  cases m.winner with
  | some c => exact impersonal_impersonal m
  | none =>
    cases victor m.board with
    | none => exact impersonal_impersonal m
    | some c => exact impartial_declareWinner c m

end Match

theorem Edit.impartial {f : Match → Match} (h : Edit f) : Match.Impartial f := by
  cases h with
  | piece | enter | erase | endTurnOf | beginTurnOf => exact Match.impartial_changeBoard _
  | moveTo id hex => exact Match.impartial_moveTo id hex
  | takeControl owner id => exact Match.impartial_takeControl owner id
  | withdrawApplied a => exact Match.impartial_withdrawApplied a
  | dropDisabled => exact Match.impartial_dropDisabled
  | tickDurations => exact Match.impartial_tickDurations
  | adjustCostOf ability adjustment id =>
    exact Match.impartial_adjustCostOf ability adjustment id
  | reprint | dropFromHand | discard | setEnergy | setAvailable =>
    exact Match.impartial_changeSeat _ _
  | discardFromHand id => exact Match.impartial_discardFromHand id
  | giveBack c card => exact Match.impartial_giveBack c card
  | deal c count => exact Match.impartial_deal c count
  | random | eventResolving | nextTurn | animate => exact .plain fun _ => rfl
  | checkVictory => exact Match.impartial_checkVictory
  | addLog c text cards => exact Match.impartial_addLog c text cards
  | playSound sound => exact Match.impartial_playSound sound
  | chime c => exact Match.impartial_chime c

namespace Match

theorem Change.impartial {f : Match → Match} (h : Change f) : Impartial f := by
  cases h with
  | edit hf => exact hf.impartial
  | _ => exact .plain fun _ => rfl

/-- Matches in which the same was played take every command the same way. -/
theorem likeness_samePlay : Likeness SamePlay where
  bare {m m'} h := by
    have hbare : m.impersonal.bare = m'.impersonal.bare := congrArg bare h
    exact hbare
  told {m m'} h := by
    have htold : m.impersonal.notices.hush = m'.impersonal.notices.hush :=
      congrArg (·.notices.hush) h
    exact htold
  change hf h := hf.impartial.samePlay h

/-- What becomes of the commands, one after the other. A command that fails leaves the match as it
was. -/
def results (depth : Nat) : Match → List Command → List (Outcome Match)
  | _, [] => []
  | m, c :: cs =>
    match m.submitTraced depth c with
    | .ok (m', _) => .ok m' :: results depth m' cs
    | .error f => .error f :: results depth m cs

theorem SamePlay.results {depth : Nat} {m m' : Match} (h : m.SamePlay m') (cs : List Command) :
    List.Forall₂ (Outcome.Agree SamePlay) (m.results depth cs) (m'.results depth cs) := by
  induction cs generalizing m m' with
  | nil => exact .nil
  | cons c cs ih =>
    have hsubmit : Outcome.Agree (Likeness.Ends SamePlay) (m.submitTraced depth c)
        (m'.submitTraced depth c) := likeness_samePlay.submitTraced (likeness_samePlay.heard h) c
    unfold Match.results
    generalize m.submitTraced depth c = x at hsubmit ⊢
    generalize m'.submitTraced depth c = y at hsubmit ⊢
    cases hsubmit with
    | ok hends => exact .cons (.ok hends.1) (ih hends.1)
    | error f => exact .cons (.error f) (ih h)

end Match

namespace MatchSetup

/-- What was agreed on, but for names and point of view. -/
def impersonal (s : MatchSetup) : MatchSetup :=
  { s with usernames := ⟨"", ""⟩, viewpoint := .blue }

end MatchSetup
end HexDuel
