import HexDuel.Proofs.Notices

/-!
The single changes that resolutions are made of. Whatever a card does comes down to these, to
numbers handed out, to choices, and to the passing of the turn; what all of them respect, every
resolution respects.
-/

set_option autoImplicit false

namespace HexDuel

/-- The changes of a single object that leave it in its place. -/
inductive PieceEdit : (Piece → Piece) → Prop where
  | setHealth (health : Int) : PieceEdit (·.setHealth health)
  | setStats (stats : Stats) : PieceEdit (·.setStats stats)
  | swap (first second : Attribute) : PieceEdit (·.swap first second)
  | mayMoveAgain : PieceEdit (·.mayMoveAgain)
  | mayMoveAndAttackAgain : PieceEdit (·.mayMoveAndAttackAgain)
  | struck : PieceEdit (·.struck)
  | spent : PieceEdit (·.spent)
  | condemn : PieceEdit (·.condemn)
  | fall : PieceEdit (·.fall)
  | arrive : PieceEdit (·.arrive)
  | addPassive (a : Passive) : PieceEdit (·.addPassive a)
  | addTrigger (t : Trigger) : PieceEdit (·.addTrigger t)
  | setGrants (source : AbilityId) (disabled : Bool) : PieceEdit (·.setGrants source disabled)
  | setApplied (id : AbilityId) (applied : Option Collection) :
    PieceEdit (·.changePassive id (·.setApplied applied))
  | adjust (ability : AbilityId) (scope : Scope) (adjustment : Adjustment) :
    PieceEdit (·.adjust ability scope adjustment)
  | addStatus (status : Status) : PieceEdit (·.addStatus status)
  | addActivation (activation : Activation) : PieceEdit (·.addActivation activation)

theorem PieceEdit.place_eq {f : Piece → Piece} (h : PieceEdit f) (p : Piece) :
    (f p).id = p.id ∧ (f p).hex = p.hex := by
  cases h with
  | swap => simp only [Piece.swap]; split <;> exact ⟨rfl, rfl⟩
  | adjust => simp only [Piece.adjust]; split <;> exact ⟨rfl, rfl⟩
  | addStatus => simp only [Piece.addStatus]; split <;> exact ⟨rfl, rfl⟩
  | addActivation => simp only [Piece.addActivation]; split <;> exact ⟨rfl, rfl⟩
  | _ => exact ⟨rfl, rfl⟩

/-- A single change of a match in the course of a resolution. -/
inductive Edit : (Match → Match) → Prop where
  /- Objects. -/
  | piece (id : PieceId) {f : Piece → Piece} : PieceEdit f → Edit (·.changePiece id f)
  | enter (p : Piece) : p.hex.onBoard = true → Edit (·.changeBoard (·.enter p))
  | erase (id : PieceId) : Edit (·.changeBoard (·.erase id))
  | moveTo (id : PieceId) (hex : Hex) : Edit (Resolving.moveTo id hex)
  | takeControl (owner : Color) (id : PieceId) : Edit (Resolving.takeControl owner id)
  | endTurnOf (c : Color) : Edit (·.changeBoard (·.mapPieces (·.endTurnOf c)))
  | beginTurnOf (c : Color) : Edit (·.changeBoard (·.mapPieces (·.beginTurnOf c)))
  /- Abilities. -/
  | withdrawApplied (a : Passive) : Edit (·.withdrawApplied a)
  | dropDisabled : Edit (·.dropDisabled)
  | tickDurations : Edit (·.tickDurations)
  /- Cards and energy. -/
  | adjustCostOf (ability : AbilityId) (adjustment : Adjustment) (id : CardId) :
    Edit (Resolving.adjustCostOf ability adjustment id)
  | reprint (c : Color) (id : CardId) (cost : Int) (stats : Option Stats) :
    Edit (·.changeCard c id (Resolving.reprint cost stats))
  | dropFromHand (c : Color) (id : CardId) : Edit (·.dropFromHand c id)
  | discard (c : Color) (card : Card) : Edit (·.discard c card)
  | discardFromHand (id : CardId) : Edit (Resolving.discardFromHand id)
  | giveBack (c : Color) (card : Card) : Edit (Play.giveBack c card)
  | deal (c : Color) (count : Nat) : Edit (Play.deal c count)
  | setEnergy (c : Color) (energy : Energy) : Edit (·.changeSeat c (·.setEnergy energy))
  | setAvailable (c : Color) (available : Int) : Edit (·.changeSeat c (·.setAvailable available))
  /- The course of the match. -/
  | random (g : Generator) : Edit fun m => { m with random := g }
  | eventResolving (b : Bool) : Edit fun m => { m with eventResolving := b }
  | nextTurn : Edit fun m => { m with turnNumber := m.turnNumber + 1 }
  | checkVictory : Edit (·.checkVictory)
  | addLog (c : Option Color) (text : String) (cards : List Card) : Edit (·.addLog c text cards)
  | playSound (sound : String) : Edit (·.playSound sound)
  | chime (c : Color) : Edit (·.chime c)
  | animate (a : Animation) : Edit (·.animate a)

namespace Match

theorem silent_moveTo (id : PieceId) (hex : Hex) : Silent (Resolving.moveTo id hex) := by
  intro m n
  have hboard : (m.withNotices n).board = m.board := rfl
  unfold Resolving.moveTo
  rw [hboard]
  split <;> rfl

theorem silent_takeControl (owner : Color) (id : PieceId) :
    Silent (Resolving.takeControl owner id) := by
  intro m n
  have hboard : (m.withNotices n).board = m.board := rfl
  unfold Resolving.takeControl
  rw [hboard]
  cases m.board.get? id with
  | none => rfl
  | some p =>
    dsimp only
    split <;> rfl

theorem silent_changeCard (c : Color) (id : CardId) (f : Card → Card) :
    Silent (·.changeCard c id f) := silent_changeHand c (Seat.changeFirst id f)

theorem silent_adjustCostOf (ability : AbilityId) (adjustment : Adjustment) (id : CardId) :
    Silent (Resolving.adjustCostOf ability adjustment id) := by
  intro m n
  simp only [Resolving.adjustCostOf, holderOf?_withNotices]
  cases m.holderOf? id with
  | none => rfl
  | some holder => exact silent_changeCard holder id _ m n

theorem silent_dropFromHand (c : Color) (id : CardId) : Silent (·.dropFromHand c id) :=
  silent_changeHand c (·.eraseP (·.id == id))

theorem silent_discardFromHand (id : CardId) : Silent (Resolving.discardFromHand id) := by
  intro m n
  simp only [Resolving.discardFromHand, holderOf?_withNotices]
  cases m.holderOf? id with
  | none => rfl
  | some holder =>
    have hhand : ((m.withNotices n).seat holder).cardInHand? id =
        (m.seat holder).cardInHand? id := by
      rw [seat_withNotices]; rfl
    simp only [hhand]
    cases (m.seat holder).cardInHand? id with
    | none => rfl
    | some c => exact ((silent_dropFromHand holder id).comp (silent_discard holder c.reset)) m n

theorem silent_chime (c : Color) : Silent (·.chime c) := by
  intro m n
  have hview : (m.withNotices n).viewpoint = m.viewpoint := rfl
  simp only [chime, hview]
  split <;> rfl

end Match

theorem Edit.silent {f : Match → Match} (h : Edit f) : Match.Silent f := by
  cases h with
  | piece | enter | erase | endTurnOf | beginTurnOf => exact Match.silent_changeBoard _
  | moveTo id hex => exact Match.silent_moveTo id hex
  | takeControl owner id => exact Match.silent_takeControl owner id
  | withdrawApplied a => exact Match.silent_withdrawApplied a
  | dropDisabled => exact Match.silent_dropDisabled
  | tickDurations => exact Match.silent_tickDurations
  | adjustCostOf ability adjustment id =>
    exact Match.silent_adjustCostOf ability adjustment id
  | reprint c id => exact Match.silent_changeCard c id _
  | dropFromHand c id => exact Match.silent_dropFromHand c id
  | discard c card => exact Match.silent_discard c card
  | discardFromHand id => exact Match.silent_discardFromHand id
  | giveBack c card => exact Match.silent_giveBack c card
  | deal c count => exact Match.silent_deal c count
  | setEnergy c | setAvailable c => exact Match.silent_changeSeat c fun _ _ _ => rfl
  | random | eventResolving | nextTurn | playSound | animate => exact fun _ _ => rfl
  | checkVictory => exact Match.silent_checkVictory
  | addLog c text cards => exact Match.silent_addLog c text cards
  | chime c => exact Match.silent_chime c

end HexDuel
