import HexDuel.Proofs.Edit

/-!
How a match stands: whose turn it is and the how manieth, how much energy each player has in a turn,
and who has won. Of all single changes only those that begin a turn and the look at the cores touch
any of it. What the players have left to spend is touched besides when they pay, when an action says
so and while an event is resolved.
-/

set_option autoImplicit false

namespace HexDuel

/-- Whose turn it is, and what goes by the number of turns. -/
structure Clock where
  turn : Color
  turnNumber : Nat
  limits : Limits
  totals : PerSide Int
  deriving DecidableEq

/-- How much energy the players have left, and whether an event keeps its place in the hand. -/
structure Means where
  available : PerSide Int
  slot : Bool
  deriving DecidableEq

namespace Match

def clock (m : Match) : Clock where
  turn := m.turn
  turnNumber := m.turnNumber
  limits := m.limits
  totals := ⟨m.seats.blue.energy.total, m.seats.orange.energy.total⟩

theorem totals_clock (m : Match) (c : Color) : m.clock.totals.get c = (m.seat c).energy.total := by
  cases c <;> rfl

def standing (m : Match) : Clock × Option Color := (m.clock, m.winner)

theorem standing_changeSeat (m : Match) (c : Color) {f : Seat → Seat}
    (hf : ∀ s : Seat, (f s).energy.total = s.energy.total) :
    (m.changeSeat c f).standing = m.standing := by
  cases c <;> simp [standing, clock, changeSeat, PerSide.modify, hf]

theorem standing_setAvailable (m : Match) (c : Color) (available : Int) :
    (m.changeSeat c (·.setAvailable available)).standing = m.standing :=
  m.standing_changeSeat c fun _ => rfl

def means (m : Match) : Means where
  available := ⟨m.seats.blue.energy.available, m.seats.orange.energy.available⟩
  slot := m.eventResolving

theorem available_means (m : Match) (c : Color) :
    m.means.available.get c = (m.seat c).energy.available := by cases c <;> rfl

/-- How the match stands, and what the players have left to spend. -/
def bearing (m : Match) : (Clock × Option Color) × Means := (m.standing, m.means)

theorem clock_of_bearing {m m' : Match} (h : m'.bearing = m.bearing) : m'.clock = m.clock :=
  congrArg (·.1.1) h

theorem standing_of_bearing {m m' : Match} (h : m'.bearing = m.bearing) :
    m'.standing = m.standing := congrArg Prod.fst h

theorem means_of_bearing {m m' : Match} (h : m'.bearing = m.bearing) : m'.means = m.means :=
  congrArg Prod.snd h

theorem bearing_changeSeat (m : Match) (c : Color) {f : Seat → Seat}
    (hf : ∀ s : Seat, (f s).energy = s.energy) : (m.changeSeat c f).bearing = m.bearing := by
  cases c <;> simp [bearing, standing, clock, means, changeSeat, PerSide.modify, hf]

theorem bearing_setSelection (m : Match) (c : Color) (selection : Selection) :
    (m.setSelection c selection).bearing = m.bearing := m.bearing_changeSeat c fun _ => rfl

theorem bearing_addToHand (m : Match) (c : Color) (card : Card) :
    (m.addToHand c card).bearing = m.bearing := m.bearing_changeSeat c fun _ => rfl

theorem bearing_discard (m : Match) (c : Color) (card : Card) :
    (m.discard c card).bearing = m.bearing := m.bearing_changeSeat c fun _ => rfl

theorem bearing_dropFromHand (m : Match) (c : Color) (id : CardId) :
    (m.dropFromHand c id).bearing = m.bearing := m.bearing_changeSeat c fun _ => rfl

theorem bearing_withdrawAll (as : List Passive) (m : Match) :
    (m.withdrawAll as).bearing = m.bearing := by
  induction as generalizing m with
  | nil => rfl
  | cons a as ih =>
    refine (ih (m.withdrawApplied a)).trans ?_
    unfold withdrawApplied
    split
    · unfold withdraw
      split <;> rfl
    · rfl

theorem bearing_takeTop (m : Match) (c : Color) : (m.takeTop c).bearing = m.bearing := by
  have hfirst := m.bearing_changeSeat c (f := fun s => { s with deck := s.deck.tail }) fun _ => rfl
  unfold takeTop
  dsimp only
  split
  · exact hfirst
  · refine Eq.trans ?_ hfirst
    exact bearing_changeSeat _ c.opponent fun _ => rfl

theorem bearing_drawTop (m : Match) (c : Color) : (m.drawTop c).bearing = m.bearing := by
  unfold drawTop
  split
  · rfl
  · exact (bearing_addToHand _ c _).trans (m.bearing_takeTop c)

theorem bearing_burnTop (m : Match) (c : Color) : (m.burnTop c).bearing = m.bearing := by
  unfold burnTop
  split
  · rfl
  · exact (bearing_discard _ c _).trans (m.bearing_takeTop c)

theorem bearing_drawTimes (c : Color) (count : Nat) (m : Match) :
    (Play.drawTimes c count m).bearing = m.bearing := by
  induction count generalizing m with
  | zero => rfl
  | succ count ih =>
    unfold Play.drawTimes
    split
    · rfl
    · exact (ih _).trans (m.bearing_drawTop c)

theorem bearing_burnTimes (c : Color) (count : Nat) (m : Match) :
    (Play.burnTimes c count m).bearing = m.bearing := by
  induction count generalizing m with
  | zero => rfl
  | succ count ih =>
    unfold Play.burnTimes
    split
    · rfl
    · refine (ih _).trans ?_
      change (m.burnTop c).bearing = m.bearing
      exact m.bearing_burnTop c

theorem bearing_deal (c : Color) (count : Nat) (m : Match) :
    (Play.deal c count m).bearing = m.bearing :=
  (bearing_burnTimes c _ _).trans (bearing_drawTimes c _ m)

theorem bearing_giveBack (c : Color) (card : Card) (m : Match) :
    (Play.giveBack c card m).bearing = m.bearing := by
  unfold Play.giveBack
  split
  · change (m.discard c card).bearing = m.bearing
    exact m.bearing_discard c card
  · exact m.bearing_addToHand c card

theorem bearing_spend (m : Match) (c : Color) (id : CardId) (card : Card) :
    ((m.dropFromHand c id).discard c card).bearing = m.bearing :=
  (bearing_discard _ c card).trans (m.bearing_dropFromHand c id)

theorem bearing_discardFromHand (id : CardId) (m : Match) :
    (Resolving.discardFromHand id m).bearing = m.bearing := by
  unfold Resolving.discardFromHand
  split
  · rfl
  · split
    · rfl
    · exact m.bearing_spend _ id _

theorem bearing_adjustCostOf (ability : AbilityId) (adjustment : Adjustment) (id : CardId)
    (m : Match) : (Resolving.adjustCostOf ability adjustment id m).bearing = m.bearing := by
  unfold Resolving.adjustCostOf
  split
  · exact m.bearing_changeSeat _ fun _ => rfl
  · rfl

theorem bearing_moveTo (m : Match) (id : PieceId) (hex : Hex) :
    (Resolving.moveTo id hex m).bearing = m.bearing := by
  unfold Resolving.moveTo
  split <;> rfl

theorem bearing_takeControl (m : Match) (owner : Color) (id : PieceId) :
    (Resolving.takeControl owner id m).bearing = m.bearing := by
  unfold Resolving.takeControl
  split
  · rfl
  · split <;> rfl

theorem bearing_chime (m : Match) (c : Color) : (m.chime c).bearing = m.bearing := by
  unfold chime
  split <;> rfl

/-- Only the winner can be another. -/
theorem checkVictory_eq (m : Match) : ∃ winner log sounds,
    m.checkVictory = { m with winner := winner, log := log, sounds := sounds } := by
  unfold checkVictory
  split
  · exact ⟨_, _, _, rfl⟩
  · split
    · unfold declareWinner
      dsimp only
      split <;> exact ⟨_, _, _, rfl⟩
    · exact ⟨_, _, _, rfl⟩

theorem clock_checkVictory (m : Match) : m.checkVictory.clock = m.clock := by
  obtain ⟨_, _, _, heq⟩ := m.checkVictory_eq
  rw [heq]
  rfl

theorem means_checkVictory (m : Match) : m.checkVictory.means = m.means := by
  obtain ⟨_, _, _, heq⟩ := m.checkVictory_eq
  rw [heq]
  rfl

end Match

/-- The single changes by which a match comes to stand otherwise. -/
inductive Match.Stirs (m : Match) : Match → Prop where
  | nextTurn : Stirs m { m with turnNumber := m.turnNumber + 1 }
  | setEnergy (c : Color) (energy : Energy) : Stirs m (m.changeSeat c (·.setEnergy energy))
  | checkVictory : Stirs m m.checkVictory

theorem Edit.standing {f : Match → Match} (h : Edit f) (m : Match) :
    (f m).standing = m.standing ∨ m.Stirs (f m) := by
  have hkept : (f m).bearing = m.bearing → (f m).standing = m.standing ∨ m.Stirs (f m) :=
    fun hbearing => .inl (Match.standing_of_bearing hbearing)
  cases h with
  | nextTurn => exact .inr .nextTurn
  | setEnergy c energy => exact .inr (.setEnergy c energy)
  | checkVictory => exact .inr .checkVictory
  | moveTo id hex => exact hkept (m.bearing_moveTo id hex)
  | takeControl owner id => exact hkept (m.bearing_takeControl owner id)
  | withdrawApplied a => exact hkept (Match.bearing_withdrawAll [a] m)
  | dropDisabled => exact hkept (Match.bearing_withdrawAll _ _)
  | tickDurations => exact hkept (Match.bearing_withdrawAll _ _)
  | adjustCostOf ability adjustment id =>
    exact hkept (Match.bearing_adjustCostOf ability adjustment id m)
  | setAvailable c available => exact .inl (m.standing_setAvailable c available)
  | reprint c | dropFromHand c | discard c => exact hkept (m.bearing_changeSeat c fun _ => rfl)
  | discardFromHand id => exact hkept (Match.bearing_discardFromHand id m)
  | giveBack c card => exact hkept (Match.bearing_giveBack c card m)
  | deal c count => exact hkept (Match.bearing_deal c count m)
  | chime c => exact hkept (m.bearing_chime c)
  | _ => exact .inl rfl

end HexDuel
