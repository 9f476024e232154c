import HexDuel.Proofs.Tending

/-!
What a resolution does, with all that belongs together kept together. Upkeep is one act, and so is a
destruction, whatever comes about between the fall of the object and its removal. All else is done
by errands, which no lasting ability has a part in.
-/

set_option autoImplicit false

namespace HexDuel

namespace Stage

/-- The stage at which the fall of the object is announced. -/
def topple (s : Stage) (id : PieceId) (card : Card) : Stage :=
  ⟨((s.game.changePiece id (·.fall)).playSound "destroyed.wav").addLog none
    s!"{card.mention} was destroyed" [card], .toppled id :: s.trace⟩

end Stage

/-- Neither asks for the destruction of an object nor begins it. -/
def Steady (f : Piece → Piece) : Prop :=
  ∀ p : Piece, (f p).condemned = p.condemned ∧ (f p).falling = p.falling

/-- What is done without any lasting ability being given, written or withdrawn, and without any
object being destroyed. -/
inductive Errand (s : Stage) : Stage → Prop where
  | inquiry {s' : Stage} : Inquiry s s' → Errand s s'
  | note (h : Happening) : h.isPlain = true → Errand s ⟨s.game, h :: s.trace⟩
  | ending : Errand s ⟨s.game, .executed .endTurn :: s.trace⟩
  | turnover {f : Match → Match} : Turnover f → Errand s (s.map f)
  /- Objects. -/
  | mark (id : PieceId) {f : Piece → Piece} : Mark f → Steady f →
    Errand s (s.map (·.changePiece id f))
  | takeControl (owner : Color) (id : PieceId) : Errand s (s.map (Resolving.takeControl owner id))
  | endTurnOf (c : Color) : Errand s (s.map (·.changeBoard (·.mapPieces (·.endTurnOf c))))
  | beginTurnOf (c : Color) : Errand s (s.map (·.changeBoard (·.mapPieces (·.beginTurnOf c))))
  | moveTo (id : PieceId) (hex : Hex) : s.Knows hex → Errand s (s.map (Resolving.moveTo id hex))
  | walk (id : PieceId) (made : Int) {start goal : Hex} {hexes : List Hex} :
    s.game.movementHexes start = .ok hexes → goal ∈ hexes →
    Errand s (s.map (·.changePiece id (·.walk made goal)))
  /- Cards. -/
  | play {player : Color} {id : CardId} {card : Card} {type : CardType} {hex : Hex} :
    (s.game.seat player).cardInHand? id = some card → s.Takes hex →
    hex ∈ s.game.placementHexes player type →
    Errand s ((s.map (·.dropFromHand player id)).place card hex player true)
  | spend {player : Color} {id : CardId} {card : Card} :
    (s.game.seat player).cardInHand? id = some card →
    Errand s (s.map fun m => (m.dropFromHand player id).discard player card.reset)
  | reprint (c : Color) (id : CardId) (cost : Int) (stats : Option Stats) :
    Errand s (s.map (·.changeCard c id (Resolving.reprint cost stats)))
  | deal (c : Color) (count : Nat) : Errand s (s.map (Play.deal c count))
  /- Turns. -/
  | leave (c : Color) :
    Errand s ⟨(s.game.setSelection c .none).setStatus c "", .turnEnded c :: s.trace⟩
  | handOver (c : Color) : (s.game.seat c.opponent).selection = .none →
    Errand s (s.map fun m => { m with turn := c })

/-- What becomes of an object that has fallen: its card is discarded, unless its own fall has
brought about that it left the board. -/
inductive Buried (id : PieceId) (s : Stage) : Stage → Prop where
  | gone : s.game.board.get? id = none → Buried id s s
  | discard {p : Piece} {s' : Stage} : TakenOff s id p s' →
    Buried id s (s'.map fun m => m.checkVictory.discard p.owner p.card.reset)

/-- The destruction of the object may be asked for first. -/
def Stage.Dooms (s : Stage) (id : PieceId) (start : Stage) : Prop :=
  start = s ∨ start = s.map (·.changePiece id (·.condemn))

inductive Act : Stage → Stage → Prop where
  | refl (s : Stage) : Act s s
  | trans {s s' s'' : Stage} : Act s s' → Act s' s'' → Act s s''
  | errand {s s' : Stage} : Errand s s' → Act s s'
  /- Abilities. -/
  | reapply {s s' : Stage} : Play.reapply.run s = .ok ((), s') → Act s s'
  | install (id : PieceId) (sentence : Sentence) (duration : Option Nat) {s s' : Stage} :
    (Play.grant id sentence none duration).run s = .ok ((), s') → Act s s'
  | tickDurations (s : Stage) : Act s (s.map (·.tickDurations))
  /- Destruction. -/
  /-- Of an object that falls already no further destruction comes. -/
  | condemn (id : PieceId) {s : Stage} :
    (∀ p, s.game.board.get? id = some p → p.falling = true) →
    Act s (s.map (·.changePiece id (·.condemn)))
  | destroy {id : PieceId} {card : Card} {s start fallen s' : Stage} : s.Dooms id start →
    Act (start.topple id card) fallen → Buried id fallen s' → Act s s'
  /- Cards. -/
  | giveBack {id : PieceId} {p : Piece} {s s' : Stage} : TakenOff s id p s' →
    Act s (s'.map fun m => Play.giveBack p.owner p.card.reset m.checkVictory)
  /-- The card is the first of those that the action speaks of. -/
  | spawn {target place side : Target} {ctx ctx' : Context} {cards : List Card} {card : Card}
    {hex : Hex} {owner : Color} {s found s' : Stage} :
    .executed (.spawnPiece target place side) ∈ s.trace →
    ((Resolving.resolve target).run ctx).run s = .ok ((.cards cards, ctx'), found) →
    cards.head? = some card → Relation.ReflTransGen Inquiry found s' → s'.Takes hex →
    s'.Knows hex → Act s (s'.place card hex owner false)

/-! ### Acts as courses of deeds -/

variable {s s' : Stage}

theorem Inquiry.deed (s s' : Stage) (h : Inquiry s s') : Deed s s' := .tending (.inquiry h)

theorem deeds_of_inquired (h : Relation.ReflTransGen Inquiry s s') : Deeds s s' :=
  Relation.ReflTransGen.mono Inquiry.deed _ _ h

theorem deeds_of_tended (h : Relation.ReflTransGen Tending s s') : Deeds s s' :=
  Relation.ReflTransGen.mono (fun _ _ => .tending) _ _ h

theorem Errand.deed (h : Errand s s') : Deed s s' := by
  cases h with
  | inquiry h => exact h.deed
  | note h hplain => exact .note h hplain
  | ending => exact .ending
  | turnover hf => exact .turnover hf
  | mark id hf => exact .mark id hf
  | takeControl owner id => exact .takeControl owner id
  | endTurnOf c => exact .endTurnOf c
  | beginTurnOf c => exact .beginTurnOf c
  | moveTo id hex hknown => exact .moveTo id hex hknown
  | walk id made hm hg => exact .walk id made hm hg
  | play hheld htakes hplacement => exact .play hheld htakes hplacement
  | spend hheld => exact .spend hheld
  | reprint c id cost stats => exact .reprint c id cost stats
  | deal c count => exact .deal c count
  | leave c => exact .leave c
  | handOver c hnone => exact .handOver c hnone

theorem Stage.deeds_topple (s : Stage) (id : PieceId) (card : Card) :
    Deeds s (s.topple id card) := by
  have hfall : Deed s (s.map (·.changePiece id (·.fall))) := .mark id .fall
  have hnote : Deed _ ⟨s.game.changePiece id (·.fall), .toppled id :: s.trace⟩ :=
    .note (s := s.map (·.changePiece id (·.fall))) (.toppled id) rfl
  have hsound : Deed _ _ :=
    .turnover (s := ⟨s.game.changePiece id (·.fall), .toppled id :: s.trace⟩)
      (.playSound "destroyed.wav")
  exact (((Deeds.single hfall).tail hnote).tail hsound).tail
    (.tending (.inquiry (.addLog none s!"{card.mention} was destroyed" [card])))

theorem Stage.Dooms.deeds {id : PieceId} {start : Stage} (h : s.Dooms id start) (card : Card) :
    Deeds s (start.topple id card) := by
  obtain rfl | rfl := h
  · exact start.deeds_topple id card
  · exact (Deeds.single (.mark id .condemn)).trans (Stage.deeds_topple _ id card)

theorem Buried.deeds {id : PieceId} (h : Buried id s s') : Deeds s s' := by
  cases h with
  | gone => exact .refl
  | discard h => exact .single (.bury h.removed)

theorem Act.deeds (h : Act s s') : Deeds s s' := by
  induction h with
  | refl => exact .refl
  | trans _ _ ih ih' => exact ih.trans ih'
  | errand h => exact .single h.deed
  | reapply h => exact deeds_of_tended (Play.goes_reapply _ _ _ h)
  | install id sentence duration h => exact deeds_of_tended (Play.goes_grant _ _ _ _ _ _ _ h)
  | tickDurations s => exact .single .tickDurations
  | condemn id => exact .single (.mark id .condemn)
  | destroy hdooms _ hburied ih => exact (hdooms.deeds _).trans (ih.trans hburied.deeds)
  | giveBack h => exact .single (.giveBack h.removed)
  | spawn _ hresolve _ hinquired htakes hknown =>
    have hfound := Resolving.goes_resolve Inquiry.deed _ _ _ _ _ hresolve
    exact hfound.trans ((deeds_of_inquired hinquired).tail (.spawn _ _ htakes hknown))

theorem Act.inquired (h : Relation.ReflTransGen Inquiry s s') : Act s s' := by
  induction h with
  | refl => exact .refl _
  | tail _ hlast ih => exact ih.trans (.errand (.inquiry hlast))

end HexDuel
