import HexDuel.Proofs.Assault
import HexDuel.Proofs.Reachable
import HexDuel.Proofs.Rerun

/-!
What commands are checked for before anything is done. What is asked for can be done, or the command
is rejected; a command that is being carried out was legal, and a legal one is not rejected. What is
told to players has no part in it, so that a command is still legal when the answer to its prompt
comes.
-/

set_option autoImplicit false

namespace HexDuel

/-- What is asked for can be done. The player holds the card, has enough left to pay for it and names
a cell that takes it, unless it is an event; or the player owns the object, which can do that. -/
def Match.Legal (m : Match) (player : Color) : Resumption → Prop
  | .playCard id hex => ∃ card cost, (m.seat player).cardInHand? id = some card ∧
    card.effectiveCost = .ok cost ∧ cost ≤ (m.seat player).energy.available ∧
      (card.type = .event ∨ ∃ goal, hex = some goal ∧ goal ∈ m.placementHexes player card.type)
  | .movePiece start goal => ∃ p hexes, m.board.pieceAt? start = some p ∧ p.owner = player ∧
    m.movementHexes start = .ok hexes ∧ goal ∈ hexes
  | .attackPiece start target => ∃ p hexes, m.board.pieceAt? start = some p ∧ p.owner = player ∧
    m.attackHexes start = .ok hexes ∧ target ∈ hexes
  | .activateAbility hex index => ∃ p activation, m.board.pieceAt? hex = some p ∧
    p.owner = player ∧ p.canActivate = true ∧ p.activations[index]? = some activation

namespace Match
variable {m m' : Match} {player : Color} {resumption : Resumption}

theorem isPiece_of_mem_placementHexes {type : CardType} {hex : Hex}
    (h : hex ∈ m.placementHexes player type) : type.isPiece = true := by
  cases type with
  | event => cases h
  | _ => rfl

theorem onBoard_of_mem_placementHexes {type : CardType} {hex : Hex}
    (h : hex ∈ m.placementHexes player type) : hex.onBoard = true := by
  have hmem := (List.mem_filter.1 (List.mem_eraseDups.1 h)).1
  have hplacements : ∀ h ∈ player.placements, h.onBoard = true := by cases player <;> decide
  cases type with
  | robot => exact hplacements hex hmem
  | building =>
    obtain ⟨p, -, hnear⟩ := List.mem_flatMap.1 hmem
    exact Hex.onBoard_of_mem_neighbors hnear
  | event | core => cases hmem

theorem blank_reject (m : Match) (c : Color) (r : Rejection) : (m.reject c r).blank = m.blank := by
  cases c <;> rfl

theorem blank_suspend (m : Match) (c : Color) (resumption : Resumption) (offered : Selection)
    (chosen : List Choice) : (m.suspend c resumption offered chosen).blank = m.blank := by
  cases c <;> rfl

/-- Nothing that players are told has a part in it. -/
theorem Legal.of_blank (h : m.Legal player resumption) (hblank : m'.blank = m.blank) :
    m'.Legal player resumption := by
  have hlegal : m.blank.Legal player resumption := by
    cases player <;> cases resumption <;> exact h
  rw [← hblank] at hlegal
  cases player <;> cases resumption <;> exact hlegal

end Match

namespace Attempt
variable {run : Runner} {player : Color} {s s' : Stage} {resumption : Resumption} {r : Rejection}

/-! ### What is carried out was legal -/

theorem legal_of_perform (hsound : s.game.board.Sound)
    (h : (perform run player resumption).run.run s = .ok (.ok (), s')) :
    s.game.Legal player resumption := by
  cases resumption with
  | playCard id hex =>
    obtain ⟨card, cost, paid, hcan, hplayed⟩ := played_of_run h
    refine ⟨card, cost, hcan.held, hcan.price, hcan.enough, ?_⟩
    cases hplayed with
    | event htype => exact .inl htype
    | piece hgoal hin => exact .inr ⟨_, hgoal, hin⟩
  | movePiece start goal =>
    obtain ⟨p, _, hp, howner, hwalked, -⟩ := walk_of_movePiece h
    obtain ⟨hexes, hhexes, hgoal⟩ := hwalked.goal
    exact ⟨p, hexes, hp, howner, hhexes, hgoal⟩
  | attackPiece start target =>
    obtain ⟨a, hexes, -, -, -, ha, howner, hhexes, htarget, -⟩ := approached_of_attackPiece h
    exact ⟨a, hexes, ha, howner, hhexes, htarget⟩
  | activateAbility hex index =>
    obtain ⟨own, s₁, hown, hrest⟩ := run_bind h
    obtain ⟨hp, howner, rfl⟩ := owned_of_run hown
    have hrest := of_run_look hrest
    rw [hsound.get?_of_pieceAt? hp] at hrest
    dsimp only at hrest
    split at hrest
    · cases hrest
    · rename_i hcan
      split at hrest
      · cases hrest
      · rename_i activation hactivation
        exact ⟨own, activation, hp, howner, by simpa using hcan, hactivation⟩

/-! ### What is legal is not rejected -/

theorem not_refused_arrival {card : Card} {hex : Hex}
    (hheld : (s.game.seat player).cardInHand? card.id = some card)
    (hin : hex ∈ s.game.placementHexes player card.type) :
    (arrival run player card hex).run.run s ≠ .ok (.error r, s') := by
  intro h
  have hrest := of_run_look h
  rw [hheld] at hrest
  obtain h | ⟨_, dropped, hdrop, hrest⟩ := rejected_of_bind hrest
  · exact Firm.change _ _ _ _ h
  cases hdrop
  obtain h | ⟨placed, s₁, hplace, hrest⟩ := rejected_of_bind hrest
  · exact Firm.lift _ _ _ _ h
  -- the card is dropped before it is placed, which does not touch the board
  cases placed with
  | none =>
    obtain ⟨-, htaken⟩ := unplaced_of_run (of_run_lift hplace)
    have htaken : (!card.type.isPiece || !hex.onBoard || s.game.board.occupied hex) = true :=
      htaken
    rw [Match.not_occupied_of_mem_placementHexes hin, Match.isPiece_of_mem_placementHexes hin,
      Match.onBoard_of_mem_placementHexes hin] at htaken
    cases htaken
  | some id => exact firm_placed run player card id _ _ _ hrest

theorem not_refused_playPiece {card : Card} {cost : Int} {hex : Hex}
    (hheld : (s.game.seat player).cardInHand? card.id = some card)
    (hin : hex ∈ s.game.placementHexes player card.type) :
    (playPiece run player card cost hex).run.run s ≠ .ok (.error r, s') := by
  intro h
  rw [playPiece_eq] at h
  have hrest := of_run_look h
  rw [if_neg (by simpa using hin)] at hrest
  obtain h | ⟨_, paid, hpay, hrest⟩ := rejected_of_bind hrest
  · exact firm_pay player cost _ _ _ h
  -- the hand and the board are as they were before the card was paid for
  refine not_refused_arrival ?_ ?_ hrest <;> rw [paid_of_run hpay]
  · cases player <;> exact hheld
  · rwa [Match.placementHexes_congr rfl]

/-- A card that is held and paid for and has a cell that takes it, or is an event, is not refused. -/
theorem not_refused_playCard {card : Card} {cost : Int} {id : CardId} {hex : Option Hex}
    (hheld : (s.game.seat player).cardInHand? id = some card)
    (hprice : card.effectiveCost = .ok cost)
    (henough : cost ≤ (s.game.seat player).energy.available)
    (hplace : card.type = .event ∨
      ∃ goal, hex = some goal ∧ goal ∈ s.game.placementHexes player card.type) :
    (playCard run player id hex).run.run s ≠ .ok (.error r, s') := by
  intro h
  have hrest := of_run_look h
  dsimp only at hrest
  rw [hheld] at hrest
  obtain h | ⟨cost', s₁, hlift, hrest⟩ := rejected_of_bind hrest
  · exact Firm.lift _ _ _ _ h
  obtain ⟨hcost, rfl⟩ := Play.of_run_lift (of_run_lift hlift)
  obtain rfl := Except.ok.inj (hprice.symm.trans hcost)
  rw [if_neg (Int.not_lt.2 henough)] at hrest
  have hid : card.id = id := by simpa using List.find?_some hheld
  split at hrest
  · exact firm_playEvent run player card cost _ _ _ hrest
  · exact Firm.fault _ _ _ _ hrest
  · rename_i goal hnotevent _ _
    obtain hevent | ⟨_, hgoal, hin⟩ := hplace
    · exact absurd hevent hnotevent
    · cases hgoal
      exact not_refused_playPiece (hid ▸ hheld) hin hrest
  · exact Firm.fault _ _ _ _ hrest

/-- An ability that an object of the player's has, and may use, is not refused. -/
theorem not_refused_activateAbility {hex : Hex} {index : Nat} {p : Piece} {activation : Activation}
    (hsound : s.game.board.Sound) (hp : s.game.board.pieceAt? hex = some p)
    (howner : p.owner = player) (hcan : p.canActivate = true)
    (hactivation : p.activations[index]? = some activation) :
    (activateAbility run player hex index).run.run s ≠ .ok (.error r, s') := by
  intro h
  obtain h | ⟨own, s₁, hown, hrest⟩ := rejected_of_bind h
  · exact not_refused_ownPieceAt hp howner h
  obtain ⟨hp', -, rfl⟩ := owned_of_run hown
  obtain rfl := Option.some.inj (hp.symm.trans hp')
  have hrest := of_run_look hrest
  rw [hsound.get?_of_pieceAt? hp] at hrest
  dsimp only at hrest
  rw [hcan, hactivation] at hrest
  have hfirm : Firm (do
      change (·.addLog (some player) s!"activated {p.card.mention}'s ability" [p.card])
      ((Resolving.executeAll run activation.actions).run' { Context.command player with
        current := some p.id, source := some activation.ability } : Play Unit)
      change (·.changePiece p.id (·.spent))) :=
    (Firm.change _).next fun _ => (Firm.lift _).next fun _ => .change _
  exact hfirm _ _ _ hrest

theorem not_rejected_of_legal (hsound : s.game.board.Sound)
    (hlegal : s.game.Legal player resumption) :
    (perform run player resumption).run.run s ≠ .ok (.error r, s') := by
  cases resumption with
  | playCard id hex =>
    obtain ⟨card, cost, hheld, hprice, henough, hplace⟩ := hlegal
    exact not_refused_playCard hheld hprice henough hplace
  | movePiece start goal =>
    obtain ⟨p, hexes, hp, howner, hhexes, hgoal⟩ := hlegal
    exact not_refused_movePiece hp howner hhexes hgoal
  | attackPiece start target =>
    obtain ⟨a, hexes, ha, howner, hhexes, htarget⟩ := hlegal
    obtain ⟨hmay, stops, hstops, hreached⟩ :=
      Match.reached_of_mem_attackHexes ha hhexes htarget
    exact not_refused_attackPiece ha howner hstops hhexes htarget hmay hreached
  | activateAbility hex index =>
    obtain ⟨p, activation, hp, howner, hcan, hactivation⟩ := hlegal
    exact not_refused_activateAbility hsound hp howner hcan hactivation

end Attempt

/-! ### Attempts -/

namespace Match
variable {depth : Nat} {m m' : Match} {player : Color} {resumption : Resumption}
  {chosen : List Choice} {trace : List Happening}

theorem isOver_eq_false (h : m.winner = none) : m.isOver = false := by
  rw [isOver, h]
  rfl

/-- A command of the player to move that starts something is attempted. -/
theorem submitTraced_start (hover : m.isOver = false) (hpending : m.pending = none) {c : Command}
    (hturn : c.player = m.turn) {resumption : Resumption} (h : c.resumption? = some resumption)
    (depth : Nat) : m.submitTraced depth c = m.heard.attempt depth m.turn resumption [] := by
  have hover : m.heard.isOver = false := hover
  have hpending : m.heard.pending.isSome = false := congrArg Option.isSome hpending
  have hturn' : c.player = m.heard.turn := hturn
  unfold submitTraced
  cases c with
  | chooseTarget | passTurn => cases h
  | _ =>
    simp only [hover, hpending, Bool.false_eq_true, if_false, hturn', ne_eq, not_true_eq_false, h]
    rfl

/-- What becomes of a legal command: it is carried out, it waits for an answer of its player, or
there was nothing to choose from. -/
theorem Attempted.of_legal (h : Attempted depth m player resumption chosen m' trace)
    (hrefusal : m.refusal = none) (hsound : m.board.Sound) (hlegal : m.Legal player resumption) :
    (m'.refusal = none ∧ m'.pending = none) ∨
      (m'.refusal = none ∧ m'.pending = some ⟨player, resumption⟩) ∨
        m'.refusal = some .noValidTargets := by
  have hscratch : (m.scratch player chosen).game.Legal player resumption :=
    hlegal.of_blank (blank_setSelection m player _)
  cases h with
  | rejected r hrun => exact (Attempt.not_rejected_of_legal hsound hscratch hrun).elim
  | refused r hrun hr =>
    refine .inr (.inr ?_)
    obtain hkept | ⟨-, hnew⟩ := (steps_perform hrun).refusal
    · rw [hr] at hkept
      cases hkept.trans hrefusal
    · rw [refusal_abandon, ← hr, hnew]
  | suspended => exact .inr (.inl ⟨hrefusal, rfl⟩)
  | carried hrun hr _ hsettle =>
    exact .inl ⟨(steps_settle hsettle).refusal_eq.trans hr, rfl⟩

/-- A command that waits for an answer is legal as long as it waits. -/
theorem Attempted.legal (h : Attempted depth m player resumption chosen m' trace)
    (hsound : m.board.Sound) {prompt : Prompt} (hprompt : m'.pending = some prompt) :
    m'.Legal prompt.player prompt.resumption := by
  cases h with
  | rejected | refused => rw [pending_abandon] at hprompt; cases hprompt
  | carried => cases hprompt
  | suspended hrun =>
    cases hprompt
    exact (Attempt.legal_of_perform hsound hrun).of_blank
      ((blank_suspend m player resumption _ chosen).trans (blank_setSelection m player _).symm)

theorem Reachable.legal_pending (hm : m.Reachable) {prompt : Prompt}
    (hprompt : m.pending = some prompt) : m.Legal prompt.player prompt.resumption := by
  induction hm generalizing prompt with
  | @start _ m h =>
    have hnone : m.pending = none := congrArg Notices.pending (MatchSetup.notices_start h)
    rw [hnone] at hprompt
    cases hprompt
  | next hm h ih =>
    cases submitted h with
    | early r => exact (ih hprompt).of_blank (blank_reject _ _ r)
    | started _ _ _ _ h => exact h.legal hm.board_sound hprompt
    | answered _ _ _ _ _ h => exact h.legal hm.board_sound hprompt
    | passed _ hnone _ _ hrun =>
      have hkept := (steps_endOfTurn hrun).pending
      rw [hkept, hnone] at hprompt
      cases hprompt

end Match
end HexDuel
