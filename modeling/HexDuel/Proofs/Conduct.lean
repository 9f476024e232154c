import HexDuel.Proofs.Intact
import HexDuel.Proofs.Standing

/-!
Acts that keep time and accounts. A turn that passes is one thing, whatever comes about while it
ends, and so is a destruction, which begins for an object that does not fall yet. Nothing else
touches the clock, and nothing else is told of turns and of destructions. Energy is spent and given
on its own, and never so that a player owes any; and an event keeps its place in the hand for as
long as it is resolved. What an object has to wait for, and what it has moved, is given back by a
turn that begins and by actions that say so, and by nothing else.
-/

set_option autoImplicit false

namespace HexDuel

/-! ### Beats -/

/-- Notes of turns and of destructions. -/
def Happening.isBeat : Happening → Bool
  | .turnEnded _ | .turnBegan _ | .toppled _ => true
  | _ => false

/-- What the trace tells of turns and of destructions. -/
def beats (trace : List Happening) : List Happening := trace.filter (·.isBeat)

namespace Stage
variable {s s' s'' : Stage}

/-- The clock is untouched, and neither a turn nor a destruction is told of. -/
structure Calm (s s' : Stage) : Prop where
  clock : s'.game.clock = s.game.clock
  beats : HexDuel.beats s'.trace = HexDuel.beats s.trace

namespace Calm

theorem refl (s : Stage) : s.Calm s := ⟨rfl, rfl⟩

theorem trans (h : s.Calm s') (h' : s'.Calm s'') : s.Calm s'' :=
  ⟨h'.clock.trans h.clock, h'.beats.trans h.beats⟩

theorem map {f : Match → Match} (h : (f s.game).clock = s.game.clock) : s.Calm (s.map f) :=
  ⟨h, rfl⟩

theorem note {h : Happening} (hbeat : h.isBeat = false) : s.Calm ⟨s.game, h :: s.trace⟩ :=
  ⟨rfl, List.filter_cons_of_neg (by simp [hbeat])⟩

theorem place (card : Card) (hex : Hex) (owner : Color) (justPlayed : Bool) :
    s.Calm (s.place card hex owner justPlayed) := ⟨rfl, rfl⟩

end Calm

/-- Nor have the players more or less to spend. -/
structure Frugal (s s' : Stage) : Prop extends s.Calm s' where
  means : s'.game.means = s.game.means

namespace Frugal

theorem refl (s : Stage) : s.Frugal s := ⟨.refl s, rfl⟩

theorem trans (h : s.Frugal s') (h' : s'.Frugal s'') : s.Frugal s'' :=
  ⟨h.toCalm.trans h'.toCalm, h'.means.trans h.means⟩

theorem of_course {D : Stage → Stage → Prop} (hD : ∀ s s', D s s' → s.Frugal s')
    (h : Relation.ReflTransGen D s s') : s.Frugal s' := by
  induction h with
  | refl => exact .refl s
  | tail _ hlast ih => exact ih.trans (hD _ _ hlast)

theorem of_bearing {f : Match → Match} (h : (f s.game).bearing = s.game.bearing) :
    s.Frugal (s.map f) := ⟨.map (Match.clock_of_bearing h), Match.means_of_bearing h⟩

theorem note {h : Happening} (hbeat : h.isBeat = false) : s.Frugal ⟨s.game, h :: s.trace⟩ :=
  ⟨.note hbeat, rfl⟩

theorem place (card : Card) (hex : Hex) (owner : Color) (justPlayed : Bool) :
    s.Frugal (s.place card hex owner justPlayed) := ⟨.place card hex owner justPlayed, rfl⟩

theorem checkVictory (s : Stage) : s.Frugal (s.map (·.checkVictory)) :=
  ⟨.map s.game.clock_checkVictory, s.game.means_checkVictory⟩

end Frugal
end Stage

theorem Resolving.Consulted.frugal {c : Collection} {ctx : Context} {x : Collection × Context}
    {s s' : Stage} (h : Resolving.Consulted c ctx s x s') : s.Frugal s' := by
  have hselection : ∀ player selection,
      (s.game.setSelection player selection).bearing = s.game.bearing := fun player selection =>
    s.game.bearing_setSelection player selection
  cases h with
  | answered | suspended =>
    exact ⟨⟨Match.clock_of_bearing (hselection _ _), rfl⟩, Match.means_of_bearing (hselection _ _)⟩
  | waiting | refused => exact ⟨⟨rfl, rfl⟩, rfl⟩

theorem Inquiry.frugal (s s' : Stage) (h : Inquiry s s') : s.Frugal s' := by
  cases h with
  | consult _ hc => exact hc.frugal
  | _ => exact ⟨⟨rfl, rfl⟩, rfl⟩

theorem frugal_of_inquired {s s' : Stage} (h : Relation.ReflTransGen Inquiry s s') : s.Frugal s' :=
  .of_course Inquiry.frugal h

theorem Tending.frugal (s s' : Stage) (h : Tending s s') : s.Frugal s' := by
  cases h with
  | inquiry h => exact Inquiry.frugal _ _ h
  | withdrawApplied a => exact .of_bearing (Match.bearing_withdrawAll [a] s.game)
  | dropDisabled => exact .of_bearing (Match.bearing_withdrawAll _ _)
  | adjustCostOf ability adjustment id =>
    exact .of_bearing (Match.bearing_adjustCostOf ability adjustment id s.game)
  | _ => exact ⟨⟨rfl, rfl⟩, rfl⟩

theorem frugal_of_tended {s s' : Stage} (h : Relation.ReflTransGen Tending s s') : s.Frugal s' :=
  .of_course Tending.frugal h

theorem TakenOff.frugal {s s' : Stage} {id : PieceId} {p : Piece} (h : TakenOff s id p s') :
    s.Frugal s' := by
  have herased : s.Frugal (s.map (·.changeBoard (·.erase id))) := ⟨⟨rfl, rfl⟩, rfl⟩
  exact herased.trans (frugal_of_tended h.removed.tended)

theorem Stage.frugal_returned (s : Stage) (c : Color) (card : Card) :
    s.Frugal (s.map fun m => Play.giveBack c card m.checkVictory) :=
  (Stage.Frugal.checkVictory s).trans
    (.of_bearing (f := Play.giveBack c card) (Match.bearing_giveBack c card _))

theorem Stage.frugal_discarded (s : Stage) (c : Color) (card : Card) :
    s.Frugal (s.map fun m => m.checkVictory.discard c card) :=
  (Stage.Frugal.checkVictory s).trans
    (.of_bearing (f := (·.discard c card)) (Match.bearing_discard _ c card))

theorem Stage.frugal_spent (s : Stage) (c : Color) (id : CardId) (card : Card) :
    s.Frugal (s.map fun m => (m.dropFromHand c id).discard c card) :=
  .of_bearing (s.game.bearing_spend c id card)

theorem Buried.frugal {s s' : Stage} {id : PieceId} (h : Buried id s s') : s.Frugal s' := by
  cases h with
  | gone => exact .refl s
  | @discard p mid h => exact h.frugal.trans (mid.frugal_discarded _ _)

/-! ### Objects that go on -/

/-- What an object can be asked to do. -/
inductive Exertion where
  | move | attack | activate
  deriving DecidableEq, Repr

/-- Whether the object has to wait for a turn to come. -/
def Piece.bars (p : Piece) : Exertion → Bool
  | .move => p.cantMove
  | .attack => p.cantAttack
  | .activate => p.cantActivate

/-- Actions that let an object act once more in the same turn. -/
def Action.pardons : Action → Bool
  | .moveAgain _ | .moveAndAttackAgain _ => true
  | _ => false

def Happening.isPardon : Happening → Bool
  | .executed a => a.pardons
  | _ => false

/-- Whether an object has been let act once more. -/
def pardons (trace : List Happening) : Bool := trace.any (·.isPardon)

theorem pardons_of_mem {a : Action} {trace : List Happening} (h : .executed a ∈ trace)
    (ha : a.pardons = true) : pardons trace = true := List.any_eq_true.2 ⟨_, h, ha⟩

/-- The object serves the same player as before, and is not being played if it was not. What it has
to wait for is the same, unless an object has been let act once more. -/
structure Piece.GoesOn (pardoned : Bool) (p q : Piece) : Prop where
  owner : q.owner = p.owner
  bars : pardoned = false → q.bars = p.bars
  justPlayed : q.justPlayed = true → p.justPlayed = true

namespace Piece.GoesOn
variable {pardoned : Bool} {p q r : Piece}

theorem refl (p : Piece) : p.GoesOn pardoned p := ⟨rfl, fun _ => rfl, fun h => h⟩

theorem trans (h : p.GoesOn pardoned q) (h' : q.GoesOn pardoned r) : p.GoesOn pardoned r :=
  ⟨h'.owner.trans h.owner, fun hnone => (h'.bars hnone).trans (h.bars hnone),
    fun hr => h.justPlayed (h'.justPlayed hr)⟩

theorem mono (h : p.GoesOn false q) : p.GoesOn pardoned q :=
  ⟨h.owner, fun _ => h.bars rfl, h.justPlayed⟩

/-- Only the number of its moves, its cell or what does not bear on acting is another. -/
theorem of_eq (howner : q.owner = p.owner) (hbars : q.bars = p.bars)
    (hplayed : q.justPlayed = p.justPlayed) : p.GoesOn pardoned q :=
  ⟨howner, fun _ => hbars, fun hq => hplayed ▸ hq⟩

end Piece.GoesOn

/-- Upkeep lets every object go on. -/
theorem Piece.upkept_goesOn (pardoned : Bool) : Upkept (Piece.GoesOn pardoned) :=
  .of_rewritten (fun _ _ _ => .trans) fun p q h => by
    obtain ⟨_, _, _, _, _, rfl⟩ := h
    exact .of_eq rfl rfl rfl

/-- No object comes, and those that are left go on. -/
def Stage.GoesOn (s s' : Stage) : Prop := ∀ id q, s'.game.board.get? id = some q →
  ∃ p, s.game.board.get? id = some p ∧ p.GoesOn (pardons s'.trace) q

namespace Stage.GoesOn
variable {s s' : Stage}

theorem of_becomes
    (h : s.game.board.Becomes (Piece.GoesOn (pardons s'.trace)) s'.game.board) :
    s.GoesOn s' := fun _ _ hq => h.get? hq

theorem of_board (h : s'.game.board = s.game.board) : s.GoesOn s' :=
  of_becomes (h ▸ .refl .refl _)

theorem piece (id : PieceId) {f : Piece → Piece}
    (hf : ∀ p : Piece, p.GoesOn (pardons s.trace) (f p)) :
    s.GoesOn (s.map (·.changePiece id f)) := of_becomes (.modify .refl hf s.game.board id)

theorem moveTo (id : PieceId) (hex : Hex) : s.GoesOn (s.map (Resolving.moveTo id hex)) := by
  change s.GoesOn ⟨Resolving.moveTo id hex s.game, s.trace⟩
  unfold Resolving.moveTo
  split
  · exact piece id (f := (·.moveTo hex)) fun _ => .of_eq rfl rfl rfl
  · exact of_board rfl

theorem of_tended (h : Relation.ReflTransGen Tending s s') : s.GoesOn s' :=
  of_becomes ((Piece.upkept_goesOn _).tended h)

end Stage.GoesOn

/-! ### Moves that are made -/

/-- Objects are given their moves back: one has been let act once more, or a turn has begun. -/
def Happening.refreshes : Happening → Bool
  | .turnBegan _ => true
  | h => h.isPardon

def refreshed (trace : List Happening) : Bool := trace.any (·.refreshes)

theorem refreshed_of_pardons {trace : List Happening} (h : pardons trace = true) :
    refreshed trace = true := by
  obtain ⟨a, ha, hpardon⟩ := List.any_eq_true.1 h
  refine List.any_eq_true.2 ⟨a, ha, ?_⟩
  cases a with
  | executed => exact hpardon
  | _ => cases hpardon

/-- Every object has made the moves that it had made, and maybe more, unless it is new or objects
have been given their moves back. -/
def Stage.Tires (s s' : Stage) : Prop := ∀ id q, s'.game.board.get? id = some q →
  (∃ p, s.game.board.get? id = some p ∧ p.movesMade ≤ q.movesMade) ∨
    0 ≤ q.movesMade ∧ (refreshed s'.trace = true ∨ s.game.lastId < id)

namespace Stage.Tires
variable {s s' s'' : Stage}

theorem of_becomes
    (h : s.game.board.Becomes (fun p q => p.movesMade ≤ q.movesMade) s'.game.board) :
    s.Tires s' := fun _ _ hq => .inl (h.get? hq)

theorem of_board (h : s'.game.board = s.game.board) : s.Tires s' :=
  of_becomes (h ▸ .refl (fun _ => Int.le_refl _) _)

theorem piece (id : PieceId) {f : Piece → Piece} (hf : ∀ p, p.movesMade ≤ (f p).movesMade) :
    s.Tires (s.map (·.changePiece id f)) :=
  of_becomes (.modify (fun _ => Int.le_refl _) hf s.game.board id)

/-- Moves that are given back are given back to somebody who may have them. -/
theorem refresh (id : PieceId) {f : Piece → Piece} (hf : ∀ p, 0 ≤ (f p).movesMade)
    (hnoted : refreshed s.trace = true) : s.Tires (s.map (·.changePiece id f)) := by
  intro k q hq
  have hget : (s.game.board.modify id f).get? k = some q := hq
  rw [Board.get?_modify] at hget
  obtain ⟨p, hp, rfl⟩ := Option.map_eq_some_iff.1 hget
  split
  · exact .inr ⟨hf p, .inl hnoted⟩
  · exact .inl ⟨p, hp, Int.le_refl _⟩

/-- Who walks has made more moves than before. -/
theorem walk {id : PieceId} {p : Piece} {made : Int} (goal : Hex)
    (hp : s.game.board.get? id = some p) (hle : p.movesMade ≤ made) :
    s.Tires (s.map (·.changePiece id (·.walk made goal))) := by
  intro k q hq
  have hget : (s.game.board.modify id (·.walk made goal)).get? k = some q := hq
  rw [Board.get?_modify] at hget
  obtain ⟨p', hp', rfl⟩ := Option.map_eq_some_iff.1 hget
  refine .inl ⟨p', hp', ?_⟩
  split
  · rename_i hk
    obtain rfl := eq_of_beq hk
    cases hp.symm.trans hp'
    exact hle
  · exact Int.le_refl _

theorem moveTo (id : PieceId) (hex : Hex) : s.Tires (s.map (Resolving.moveTo id hex)) := by
  change s.Tires ⟨Resolving.moveTo id hex s.game, s.trace⟩
  unfold Resolving.moveTo
  split
  · exact piece id (f := (·.moveTo hex)) fun _ => Int.le_refl _
  · exact of_board rfl

theorem trans (h : s.Tires s') (h' : s'.Tires s'') (hlast : s.game.lastId ≤ s'.game.lastId)
    (hlater : s'.trace <:+ s''.trace) : s.Tires s'' := by
  intro id r hr
  obtain ⟨q, hq, hle⟩ | ⟨hpos, hfresh⟩ := h' id r hr
  · obtain ⟨p, hp, hle'⟩ | ⟨hpos, hfresh⟩ := h id q hq
    · exact .inl ⟨p, hp, Int.le_trans hle' hle⟩
    · exact .inr ⟨Int.le_trans hpos hle, hfresh.imp_left (any_of_suffix hlater)⟩
  · exact .inr ⟨hpos, hfresh.imp_right (Nat.lt_of_le_of_lt hlast)⟩

end Stage.Tires

/-! ### Objects that have to wait -/

/-- How an object is marked as having done what it was asked to do. -/
inductive Exertion.Marks : Exertion → (Piece → Piece) → Prop where
  | struck : Marks .attack (·.struck)
  | spent : Marks .activate (·.spent)

/-- An object has to wait for more than before: it changes sides, or it has done what it was asked
to do. -/
inductive Stage.Delays (s : Stage) : Stage → Prop where
  | takeControl (owner : Color) (id : PieceId) : s.Delays (s.map (Resolving.takeControl owner id))
  | exert (id : PieceId) {x : Exertion} {f : Piece → Piece} : x.Marks f →
    s.Delays (s.map (·.changePiece id f))

namespace Stage.Delays
variable {s s' : Stage}

theorem errand (h : s.Delays s') : Errand s s' := by
  cases h with
  | takeControl owner id => exact .takeControl owner id
  | exert id hmarks =>
    cases hmarks with
    | struck => exact .mark id .struck fun _ => ⟨rfl, rfl⟩
    | spent => exact .mark id .spent fun _ => ⟨rfl, rfl⟩

theorem frugal (h : s.Delays s') : s.Frugal s' := by
  cases h with
  | takeControl owner id => exact .of_bearing (s.game.bearing_takeControl owner id)
  | exert => exact .of_bearing rfl

end Stage.Delays

/-! ### Turns -/

namespace Stage

/-- The turn of the player to move is over. Nothing is asked of that player any more, and what lasts
for a number of turns has come closer to its end. -/
def retire (s : Stage) : Stage :=
  ⟨(((s.game.setSelection s.game.turn .none).setStatus s.game.turn "").changeBoard
    (·.mapPieces (·.endTurnOf s.game.turn))).tickDurations, .turnEnded s.game.turn :: s.trace⟩

/-- The turn comes to that player, if it comes to anyone. -/
def handOver (s : Stage) (c : Color) : Stage := s.map fun m => { m.checkVictory with turn := c }

/-- Whose turn it is has that much energy. -/
def beginTurn (s : Stage) (total : Int) : Stage :=
  ⟨(({ s.game with turnNumber := s.game.turnNumber + 1 }.changeSeat s.game.turn
    (·.setEnergy ⟨total, total⟩)).changeBoard (·.mapPieces (·.beginTurnOf s.game.turn))),
    .turnBegan s.game.turn :: s.trace⟩

/-- The next turn begins unless the match is decided. -/
inductive Begins (s : Stage) : Stage → Prop where
  | closed : s.game.isOver = true → Begins s s
  | begun : s.game.isOver = false → Begins s
      (s.beginTurn (min ((s.game.seat s.game.turn).energy.total + 1) s.game.limits.maxEnergy))

end Stage

/-- What is done in a resolution. -/
inductive Conduct : Stage → Stage → Prop where
  | refl (s : Stage) : Conduct s s
  | trans {s s' s'' : Stage} : Conduct s s' → Conduct s' s'' → Conduct s s''
  | errand {s s' : Stage} : Errand s s' → s.Frugal s' → s.GoesOn s' → s.Tires s' → Conduct s s'
  | delay {s s' : Stage} : s.Delays s' → Conduct s s'
  /-- A player comes to have that much energy left. -/
  | fund (c : Color) {available : Int} {s : Stage} : 0 ≤ available →
    Conduct s (s.map (·.changeSeat c (·.setAvailable available)))
  | reapply {s s' : Stage} : Play.reapply.run s = .ok ((), s') → Conduct s s'
  | install (id : PieceId) (sentence : Sentence) (duration : Option Nat) {s s' : Stage} :
    (Play.grant id sentence none duration).run s = .ok ((), s') → Conduct s s'
  /-- Of an object that falls already no further destruction comes. -/
  | condemn (id : PieceId) {s : Stage} :
    (∀ p, s.game.board.get? id = some p → p.falling = true) →
    Conduct s (s.map (·.changePiece id (·.condemn)))
  | destroy {id : PieceId} {p : Piece} {s start fallen s' : Stage} :
    s.game.board.get? id = some p → p.falling = false → s.Dooms id start →
    Conduct (start.topple id p.card) fallen → Buried id fallen s' → Conduct s s'
  | giveBack {id : PieceId} {p : Piece} {s s' : Stage} : TakenOff s id p s' →
    Conduct s (s'.map fun m => Play.giveBack p.owner p.card.reset m.checkVictory)
  /-- The card is the first of those that the action speaks of. -/
  | spawn {target place side : Target} {ctx ctx' : Context} {cards : List Card} {card : Card}
    {hex : Hex} {owner : Color} {s found s' : Stage} :
    .executed (.spawnPiece target place side) ∈ s.trace →
    ((Resolving.resolve target).run ctx).run s = .ok ((.cards cards, ctx'), found) →
    cards.head? = some card → Relation.ReflTransGen Inquiry found s' → s'.Takes hex →
    s'.Knows hex → Conduct s (s'.place card hex owner false)
  /-- Who hands the turn over is asked for nothing any more, whatever the end of the turn has
  brought about. -/
  | pass {s ended s' : Stage} : Conduct s.retire ended →
    (ended.game.seat s.game.turn).selection = .none →
    (ended.handOver s.game.turn.opponent).Begins s' → Conduct s s'

namespace Conduct
variable {s s' : Stage}

theorem inquired (h : Relation.ReflTransGen Inquiry s s') : Conduct s s' := by
  induction h with
  | refl => exact .refl _
  | tail _ hlast ih =>
    exact ih.trans (.errand (.inquiry hlast) (Inquiry.frugal _ _ hlast) (.of_board hlast.board)
      (.of_board hlast.board))

theorem of_course (h : Relation.ReflTransGen Conduct s s') : Conduct s s' := by
  induction h with
  | refl => exact .refl _
  | tail _ hlast ih => exact ih.trans hlast

end Conduct

/-! ### Conduct by acts -/

theorem Stage.act_retire (s : Stage) : Act s s.retire :=
  (Act.errand (.leave s.game.turn)).trans
    ((Act.errand (.endTurnOf s.game.turn)).trans (.tickDurations _))

theorem Stage.act_handOver {s : Stage} {c : Color}
    (h : (s.game.seat c.opponent).selection = .none) : Act s (s.handOver c) := by
  refine (Act.errand (.turnover .checkVictory)).trans (.errand (.handOver c ?_))
  exact ((Edit.checkVictory).silent.selection _ _).trans h

theorem Stage.act_beginTurn (s : Stage) (total : Int) : Act s (s.beginTurn total) :=
  (Act.errand (.turnover .nextTurn)).trans
    ((Act.errand (.turnover (.setEnergy s.game.turn ⟨total, total⟩))).trans
      ((Act.errand (.beginTurnOf s.game.turn)).trans
        (.errand (.note (.turnBegan s.game.turn) rfl))))

theorem Stage.Begins.act {s s' : Stage} (h : s.Begins s') : Act s s' := by
  cases h with
  | closed => exact .refl s
  | begun => exact s.act_beginTurn _

theorem Conduct.act {s s' : Stage} (h : Conduct s s') : Act s s' := by
  induction h with
  | refl => exact .refl _
  | trans _ _ ih ih' => exact ih.trans ih'
  | errand h => exact .errand h
  | delay h => exact .errand h.errand
  | @fund c available s => exact .errand (.turnover (.setAvailable c available))
  | reapply h => exact .reapply h
  | install id sentence duration h => exact .install id sentence duration h
  | condemn id h => exact .condemn id h
  | destroy _ _ hdooms _ hburied ih => exact .destroy hdooms ih hburied
  | giveBack h => exact .giveBack h
  | spawn hnoted hresolve hhead hinquired htakes hknown =>
    exact .spawn hnoted hresolve hhead hinquired htakes hknown
  | @pass s ended s' _ hasked hbegins ih =>
    refine s.act_retire.trans (ih.trans (Act.trans (Stage.act_handOver ?_) hbegins.act))
    rwa [Color.opponent_opponent]

/-! ### Commands -/

namespace Stage

/-- While an event is resolved, it keeps its place in the hand. -/
def resolving (s : Stage) (b : Bool) : Stage := s.map fun m => { m with eventResolving := b }

theorem calm_resolving (s : Stage) (b : Bool) : s.Calm (s.resolving b) := ⟨rfl, rfl⟩

/-- The card is put away, if it is still in the hand. -/
inductive Shelves (s : Stage) (player : Color) (id : CardId) : Stage → Prop where
  | gone : (s.game.seat player).cardInHand? id = none → Shelves s player id s
  | spent {card : Card} : (s.game.seat player).cardInHand? id = some card →
    Shelves s player id (s.map fun m => (m.dropFromHand player id).discard player card.reset)

end Stage

/-- A card comes from the hand to the board. -/
inductive Stage.Lands (s : Stage) : Stage → Prop where
  | land {player : Color} {id : CardId} {card : Card} {type : CardType} {hex : Hex} :
    (s.game.seat player).cardInHand? id = some card → s.Takes hex →
    hex ∈ s.game.placementHexes player type →
    Lands s ((s.map (·.dropFromHand player id)).place card hex player true)

/-- The object that has come last is not being played any more. -/
def Stage.arrived (s placed : Stage) : Stage :=
  s.map (·.changePiece placed.game.lastId (·.arrive))

namespace Stage.Lands
variable {s s' : Stage}

theorem errand (h : s.Lands s') : Errand s s' := by
  obtain ⟨hheld, htakes, hin⟩ := h
  exact .play hheld htakes hin

theorem frugal (h : s.Lands s') : s.Frugal s' := by
  obtain @⟨player, id, card, _, hex, -, -, -⟩ := h
  exact (Frugal.of_bearing (f := (·.dropFromHand player id))
    (s.game.bearing_dropFromHand player id)).trans (.place card hex player true)

end Stage.Lands

theorem Stage.conduct_arrived (s placed : Stage) : Conduct s (s.arrived placed) :=
  .errand (.mark placed.game.lastId .arrive fun _ => ⟨rfl, rfl⟩) (.of_bearing rfl)
    (.piece _ fun _ => ⟨rfl, fun _ => rfl, fun h => nomatch h⟩) (.piece _ fun _ => Int.le_refl _)

/-- What is done to carry out what a player asks for. -/
inductive Venture (s : Stage) : Stage → Prop where
  | conduct {s' : Stage} : Conduct s s' → Venture s s'
  /-- An object is being played until all that follows from it is done. -/
  | piece {paid placed settled s' : Stage} : Conduct s paid → paid.Lands placed →
    Conduct placed settled → Conduct (settled.arrived placed) s' → Venture s s'
  | event {player : Color} {id : CardId} {resolved shelved s' : Stage} :
    Conduct (s.resolving true) resolved → resolved.Shelves player id shelved →
    Conduct (shelved.resolving false) s' → Venture s s'

theorem Venture.next {s s' s'' : Stage} (h : Venture s s') (h' : Conduct s' s'') :
    Venture s s'' := by
  cases h with
  | conduct h => exact .conduct (h.trans h')
  | piece hpaid hlands hsettled h => exact .piece hpaid hlands hsettled (h.trans h')
  | event hresolved hshelved h => exact .event hresolved hshelved (h.trans h')

/-- What errands and conduct keep, is kept. -/
theorem Venture.keeps {I : Stage → Prop} (herrand : ∀ s s', Errand s s' → s.Calm s' → I s → I s')
    (hconduct : ∀ s s', Conduct s s' → I s → I s') {s s' : Stage} (h : Venture s s') (hs : I s) :
    I s' := by
  have hresolving : ∀ (s : Stage) b, I s → I (s.resolving b) := fun s b =>
    herrand _ _ (.turnover (.eventResolving b)) (s.calm_resolving b)
  cases h with
  | conduct h => exact hconduct _ _ h hs
  | @piece _ placed settled _ hpaid hlands hsettled h =>
    have hplaced := herrand _ _ hlands.errand hlands.frugal.toCalm (hconduct _ _ hpaid hs)
    have hsettled := hconduct _ _ hsettled hplaced
    exact hconduct _ _ h (hconduct _ _ (settled.conduct_arrived placed) hsettled)
  | @event player id resolved _ _ hresolved hshelved h =>
    have hresolved := hconduct _ _ hresolved (hresolving s true hs)
    refine hconduct _ _ h (hresolving _ false ?_)
    cases hshelved with
    | gone => exact hresolved
    | @spent card hheld =>
      exact herrand _ _ (.spend hheld) (resolved.frugal_spent player id card.reset).toCalm hresolved

theorem Venture.act {s s' : Stage} (h : Venture s s') : Act s s' :=
  h.keeps (I := fun st => Act s st) (fun _ _ herrand _ hact => hact.trans (.errand herrand))
    (fun _ _ hconduct hact => hact.trans hconduct.act) (.refl s)

end HexDuel
