import HexDuel.Proofs.Occupancy

/-!
What a resolution does, deed by deed. A deed is complete: a number is handed out together with what
bears it, and a card that leaves one place comes to another. Three kinds of steps contain one
another. Finding targets only inquires, upkeep writes on objects and on the costs of cards, and all
the rest are deeds.
-/

set_option autoImplicit false

namespace HexDuel

namespace Stage

/-- The stage after a change of the match. -/
def map (s : Stage) (f : Match → Match) : Stage := ⟨f s.game, s.trace⟩

/-- The stage after one more number has been handed out. -/
def number (s : Stage) : Stage :=
  ⟨{ s.game with lastId := s.game.lastId + 1 }, .numbered (s.game.lastId + 1) :: s.trace⟩

/-- The object that the card becomes when it is placed now. -/
def newPiece (s : Stage) (card : Card) (hex : Hex) (owner : Color) (justPlayed : Bool) : Piece :=
  { Piece.new (s.game.lastId + 1) card.reset owner hex with justPlayed := justPlayed }

/-- The stage after the card has been placed. -/
def place (s : Stage) (card : Card) (hex : Hex) (owner : Color) (justPlayed : Bool) : Stage :=
  s.number.map (·.changeBoard (·.enter (s.newPiece card hex owner justPlayed)))

/-- The cell is on the board and free, and so is the next number. -/
structure Takes (s : Stage) (hex : Hex) : Prop where
  onBoard : hex.onBoard = true
  free : s.game.board.occupied hex = false
  unused : s.game.board.contains (s.game.lastId + 1) = false

/-- Cells that effects speak of are those of the board and those that a player has named. -/
def Knows (s : Stage) (hex : Hex) : Prop :=
  hex ∈ Hex.all ∨ ∃ player c found b, Happening.answered player (.hex hex) c found b ∈ s.trace

theorem Knows.later {s s' : Stage} {hex : Hex} (h : s.Knows hex) (ht : s.trace <:+ s'.trace) :
    s'.Knows hex := by
  obtain hall | ⟨player, c, found, b, hmem⟩ := h
  · exact .inl hall
  · exact .inr ⟨player, c, found, b, ht.subset hmem⟩

end Stage

/-- The cells in a collection of cells. -/
def Collection.cells : Collection → List Hex
  | .hexes xs => xs
  | _ => []

/-- What finding targets does: it draws at random, hands out numbers for cards, and asks. -/
inductive Inquiry (s : Stage) : Stage → Prop where
  | random (g : Generator) : Inquiry s (s.map fun m => { m with random := g })
  | picked (c : Collection) : Inquiry s ⟨s.game, .picked c :: s.trace⟩
  | addLog (c : Option Color) (text : String) (cards : List Card) :
    Inquiry s (s.map (·.addLog c text cards))
  | number : Inquiry s s.number
  | consult {c : Collection} {ctx : Context} {x : Collection × Context} {s' : Stage} :
    (∀ h ∈ c.cells, s.Knows h) → Resolving.Consulted c ctx s x s' → Inquiry s s'

/-- What abilities write on an object. -/
inductive Inscription : (Piece → Piece) → Prop where
  | setGrants (source : AbilityId) (disabled : Bool) : Inscription (·.setGrants source disabled)
  | setApplied (id : AbilityId) (applied : Option Collection) :
    Inscription (·.changePassive id (·.setApplied applied))
  | adjust (ability : AbilityId) (scope : Scope) (adjustment : Adjustment) :
    Inscription (·.adjust ability scope adjustment)
  | addStatus (status : Status) : Inscription (·.addStatus status)
  | addActivation (activation : Activation) : Inscription (·.addActivation activation)

theorem Inscription.edit {f : Piece → Piece} (h : Inscription f) : PieceEdit f := by
  cases h with
  | setGrants source disabled => exact .setGrants source disabled
  | setApplied id applied => exact .setApplied id applied
  | adjust ability scope adjustment => exact .adjust ability scope adjustment
  | addStatus status => exact .addStatus status
  | addActivation activation => exact .addActivation activation

/-- What upkeep does besides: it withdraws, writes and gives lasting abilities. -/
inductive Tending (s : Stage) : Stage → Prop where
  | inquiry {s' : Stage} : Inquiry s s' → Tending s s'
  | withdrawApplied (a : Passive) : Tending s (s.map (·.withdrawApplied a))
  | dropDisabled : Tending s (s.map (·.dropDisabled))
  | inscribe (id : PieceId) {f : Piece → Piece} : Inscription f →
    Tending s (s.map (·.changePiece id f))
  | adjustCostOf (ability : AbilityId) (adjustment : Adjustment) (id : CardId) :
    Tending s (s.map (Resolving.adjustCostOf ability adjustment id))
  | addPassive (id : PieceId) {a : Passive} : a.id = s.game.lastId + 1 → a.disabled = false →
    Tending s (s.number.map (·.changePiece id (·.addPassive a)))
  | addTrigger (id : PieceId) {t : Trigger} : t.id = s.game.lastId + 1 → t.disabled = false →
    Tending s (s.number.map (·.changePiece id (·.addTrigger t)))

/-- Changes of the numbers and flags of an object. -/
inductive Mark : (Piece → Piece) → Prop where
  | setHealth (health : Int) : Mark (·.setHealth health)
  | setStats (stats : Stats) : Mark (·.setStats stats)
  | swap (first second : Attribute) : Mark (·.swap first second)
  | mayMoveAgain : Mark (·.mayMoveAgain)
  | mayMoveAndAttackAgain : Mark (·.mayMoveAndAttackAgain)
  | struck : Mark (·.struck)
  | spent : Mark (·.spent)
  | condemn : Mark (·.condemn)
  | fall : Mark (·.fall)
  | arrive : Mark (·.arrive)

theorem Mark.edit {f : Piece → Piece} (h : Mark f) : PieceEdit f := by
  cases h with
  | setHealth health => exact .setHealth health
  | setStats stats => exact .setStats stats
  | swap first second => exact .swap first second
  | mayMoveAgain => exact .mayMoveAgain
  | mayMoveAndAttackAgain => exact .mayMoveAndAttackAgain
  | struck => exact .struck
  | spent => exact .spent
  | condemn => exact .condemn
  | fall => exact .fall
  | arrive => exact .arrive

/-- Changes of a match that no card, object or number is moved by. -/
inductive Turnover : (Match → Match) → Prop where
  | setEnergy (c : Color) (energy : Energy) : Turnover (·.changeSeat c (·.setEnergy energy))
  | setAvailable (c : Color) (available : Int) :
    Turnover (·.changeSeat c (·.setAvailable available))
  | eventResolving (b : Bool) : Turnover fun m => { m with eventResolving := b }
  | nextTurn : Turnover fun m => { m with turnNumber := m.turnNumber + 1 }
  | checkVictory : Turnover (·.checkVictory)
  | playSound (sound : String) : Turnover (·.playSound sound)
  | chime (c : Color) : Turnover (·.chime c)
  | animate (a : Animation) : Turnover (·.animate a)

theorem Turnover.edit {f : Match → Match} (h : Turnover f) : Edit f := by
  cases h with
  | setEnergy c energy => exact .setEnergy c energy
  | setAvailable c available => exact .setAvailable c available
  | eventResolving b => exact .eventResolving b
  | nextTurn => exact .nextTurn
  | checkVictory => exact .checkVictory
  | playSound sound => exact .playSound sound
  | chime c => exact .chime c
  | animate a => exact .animate a

/-- The object is off the board, and upkeep has been done without it. -/
structure Removed (s : Stage) (id : PieceId) (p : Piece) (s' : Stage) : Prop where
  held : s.game.board.get? id = some p
  tended : Relation.ReflTransGen Tending (s.map (·.changeBoard (·.erase id))) s'

/-- What a resolution does. -/
inductive Deed (s : Stage) : Stage → Prop where
  | tending {s' : Stage} : Tending s s' → Deed s s'
  | note (h : Happening) : h.isPlain = true → Deed s ⟨s.game, h :: s.trace⟩
  | ending : Deed s ⟨s.game, .executed .endTurn :: s.trace⟩
  | turnover {f : Match → Match} : Turnover f → Deed s (s.map f)
  /- Objects. -/
  | mark (id : PieceId) {f : Piece → Piece} : Mark f → Deed s (s.map (·.changePiece id f))
  | takeControl (owner : Color) (id : PieceId) : Deed s (s.map (Resolving.takeControl owner id))
  | endTurnOf (c : Color) : Deed s (s.map (·.changeBoard (·.mapPieces (·.endTurnOf c))))
  | beginTurnOf (c : Color) : Deed s (s.map (·.changeBoard (·.mapPieces (·.beginTurnOf c))))
  | tickDurations : Deed s (s.map (·.tickDurations))
  | moveTo (id : PieceId) (hex : Hex) : s.Knows hex → Deed s (s.map (Resolving.moveTo id hex))
  | walk (id : PieceId) (made : Int) {start goal : Hex} {hexes : List Hex} :
    s.game.movementHexes start = .ok hexes → goal ∈ hexes →
    Deed s (s.map (·.changePiece id (·.walk made goal)))
  | spawn (card : Card) {hex : Hex} (owner : Color) : s.Takes hex → s.Knows hex →
    Deed s (s.place card hex owner false)
  /- Cards. -/
  | play {player : Color} {id : CardId} {card : Card} {type : CardType} {hex : Hex} :
    (s.game.seat player).cardInHand? id = some card → s.Takes hex →
    hex ∈ s.game.placementHexes player type →
    Deed s ((s.map (·.dropFromHand player id)).place card hex player true)
  | spend {player : Color} {id : CardId} {card : Card} :
    (s.game.seat player).cardInHand? id = some card →
    Deed s (s.map fun m => (m.dropFromHand player id).discard player card.reset)
  | bury {id : PieceId} {p : Piece} {s' : Stage} : Removed s id p s' →
    Deed s (s'.map fun m => m.checkVictory.discard p.owner p.card.reset)
  | giveBack {id : PieceId} {p : Piece} {s' : Stage} : Removed s id p s' →
    Deed s (s'.map fun m => Play.giveBack p.owner p.card.reset m.checkVictory)
  | reprint (c : Color) (id : CardId) (cost : Int) (stats : Option Stats) :
    Deed s (s.map (·.changeCard c id (Resolving.reprint cost stats)))
  | deal (c : Color) (count : Nat) : Deed s (s.map (Play.deal c count))
  /- Turns. -/
  | leave (c : Color) :
    Deed s ⟨(s.game.setSelection c .none).setStatus c "", .turnEnded c :: s.trace⟩
  /-- Nothing is asked any more of the player whose turn is over. -/
  | handOver (c : Color) : (s.game.seat c.opponent).selection = .none →
    Deed s (s.map fun m => { m with turn := c })

def Deeds : Stage → Stage → Prop := Relation.ReflTransGen Deed

variable {s s' : Stage}

/-! ### Deeds as courses of single steps -/

/-- Steps with nothing left out: somebody may be asked, and turns may end. -/
theorem Inquiry.steps (h : Inquiry s s') : Steps true true s s' := by
  refine .single ?_
  cases h with
  | random g => exact .edit (.random g)
  | picked c => exact .note _ rfl
  | addLog c text cards => exact .edit (.addLog c text cards)
  | number => exact .number
  | consult _ hc => exact .consult rfl hc

theorem Tending.steps (h : Tending s s') : Steps true true s s' := by
  cases h with
  | inquiry h => exact h.steps
  | withdrawApplied a => exact .single (.edit (.withdrawApplied a))
  | dropDisabled => exact .single (.edit .dropDisabled)
  | inscribe id hf => exact .single (.edit (.piece id hf.edit))
  | adjustCostOf ability adjustment id =>
    exact .single (.edit (.adjustCostOf ability adjustment id))
  | addPassive id =>
    exact (Steps.single .number).trans (.single (.edit (.piece id (.addPassive _))))
  | addTrigger id =>
    exact (Steps.single .number).trans (.single (.edit (.piece id (.addTrigger _))))

theorem steps_of_tended (h : Relation.ReflTransGen Tending s s') : Steps true true s s' := by
  induction h with
  | refl => exact .refl s
  | tail _ hlast ih => exact ih.trans hlast.steps

theorem Removed.steps {id : PieceId} {p : Piece} (h : Removed s id p s') :
    Steps true true s (s'.map (·.checkVictory)) :=
  (Steps.single (.edit (.erase id))).trans
    ((steps_of_tended h.tended).trans (.single (.edit .checkVictory)))

theorem steps_place (card : Card) {hex : Hex} (owner : Color) (justPlayed : Bool)
    (honBoard : hex.onBoard = true) :
    Steps true true s (s.place card hex owner justPlayed) :=
  (Steps.single .number).trans
    (.single (.edit (.enter (s.newPiece card hex owner justPlayed) honBoard)))

theorem Deed.steps (h : Deed s s') : Steps true true s s' := by
  cases h with
  | tending h => exact h.steps
  | note h hplain => exact .single (.note h hplain)
  | ending => exact .single .ending
  | turnover hf => exact .single (.edit hf.edit)
  | mark id hf => exact .single (.edit (.piece id hf.edit))
  | takeControl owner id => exact .single (.edit (.takeControl owner id))
  | endTurnOf c => exact .single (.edit (.endTurnOf c))
  | beginTurnOf c => exact .single (.edit (.beginTurnOf c))
  | tickDurations => exact .single (.edit .tickDurations)
  | moveTo id hex => exact .single (.edit (.moveTo id hex))
  | walk id made hm hg => exact .single (.walk id made hm hg)
  | spawn card owner htakes => exact steps_place card owner false htakes.onBoard
  | @play player id card _ _ _ htakes =>
    exact (Steps.single (.edit (.dropFromHand player id))).trans
      (steps_place card player true htakes.onBoard)
  | @spend player id card =>
    exact (Steps.single (.edit (.dropFromHand player id))).trans
      (.single (.edit (.discard player card.reset)))
  | bury hr => exact hr.steps.trans (.single (.edit (.discard _ _)))
  | giveBack hr => exact hr.steps.trans (.single (.edit (.giveBack _ _)))
  | reprint c id cost stats => exact .single (.edit (.reprint c id cost stats))
  | deal c count => exact .single (.edit (.deal c count))
  | leave c => exact .single (.leave c (.inl rfl))
  | handOver c => exact .single (.handOver c (.inl rfl))

namespace Deeds

theorem single (h : Deed s s') : Deeds s s' := Relation.ReflTransGen.single h

theorem trans {s'' : Stage} (h : Deeds s s') (h' : Deeds s' s'') : Deeds s s'' :=
  Relation.ReflTransGen.trans h h'

theorem steps (h : Deeds s s') : Steps true true s s' := by
  induction h with
  | refl => exact .refl s
  | tail _ hlast ih => exact ih.trans hlast.steps

end Deeds
end HexDuel
