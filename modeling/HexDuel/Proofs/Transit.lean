import HexDuel.Proofs.Shifts
import Mathlib.Data.List.Perm.Basic

/-!
Where the cards are: in a hand, on a discard pile, on the board, or still in a deck. Most changes
leave every card in its place. The others take a card from a place or put one into a place, and in
between the card is under way.
-/

set_option autoImplicit false

namespace HexDuel

/-! ### Copies of a card -/

/-- How many of the cards have that id. -/
def copiesIn (id : CardId) (cards : List Card) : Nat := (cards.map (·.id)).count id

@[simp] theorem copiesIn_nil (id : CardId) : copiesIn id [] = 0 := rfl

@[simp] theorem copiesIn_append (id : CardId) (xs ys : List Card) :
    copiesIn id (xs ++ ys) = copiesIn id xs + copiesIn id ys := by
  simp [copiesIn, List.count_append]

theorem copiesIn_cons (id : CardId) (card : Card) (cards : List Card) :
    copiesIn id (card :: cards) = copiesIn id cards + copiesIn id [card] := by
  simp only [copiesIn, List.map_cons, List.map_nil, List.count_cons, List.count_nil, Nat.zero_add]

theorem copiesIn_congr {xs ys : List Card} (h : ys.map (·.id) = xs.map (·.id)) (id : CardId) :
    copiesIn id ys = copiesIn id xs := by
  unfold copiesIn
  rw [h]

theorem copiesIn_perm {xs ys : List Card} (h : ys.Perm xs) (id : CardId) :
    copiesIn id ys = copiesIn id xs := (h.map _).count_eq id

theorem exists_of_copiesIn_pos {id : CardId} {cards : List Card} (h : 0 < copiesIn id cards) :
    ∃ card ∈ cards, card.id = id := List.mem_map.1 (List.count_pos_iff.1 h)

/-- The first card that passes is the one that is taken out. -/
theorem copiesIn_eraseP {p : Card → Bool} {card : Card} {cards : List Card}
    (h : cards.find? p = some card) (id : CardId) :
    copiesIn id (cards.eraseP p) + copiesIn id [card] = copiesIn id cards := by
  induction cards with
  | nil => cases h
  | cons c cs ih =>
    rw [copiesIn_cons id c cs]
    cases hp : p c with
    | true =>
      rw [List.find?_cons_of_pos hp] at h
      cases h
      rw [List.eraseP_cons_of_pos hp]
    | false =>
      have hnot : ¬ p c = true := by simp [hp]
      rw [List.find?_cons_of_neg hnot] at h
      rw [List.eraseP_cons_of_neg hnot, copiesIn_cons id c (cs.eraseP p)]
      have := ih h
      omega

/-- What the change does not touch is the same all along. -/
theorem Seat.map_changeFirst {β : Type} {id : CardId} {f : Card → Card} {g : Card → β}
    (hf : ∀ card, g (f card) = g card) (cards : List Card) :
    (changeFirst id f cards).map g = cards.map g := by
  induction cards with
  | nil => rfl
  | cons c cs ih =>
    unfold changeFirst
    split
    · simp only [List.map_cons, hf]
    · simp only [List.map_cons, ih]

theorem Card.id_adjustCost (card : Card) (ability : AbilityId) (adjustment : Adjustment) :
    (card.adjustCost ability adjustment).id = card.id := by
  unfold adjustCost
  split <;> rfl

namespace Board

/-- The cards of the objects. -/
def cards (b : Board) : List Card := b.pieces.map (·.card)

theorem cards_map {g : PieceId × Piece → Piece} (hg : ∀ e, (g e).card = e.2.card) (b : Board) :
    (⟨b.entries.map fun e => (e.1, g e)⟩ : Board).cards = b.cards := by
  simp [cards, pieces, Function.comp_def, hg]

theorem cards_modify (b : Board) (id : PieceId) {f : Piece → Piece}
    (hf : ∀ p, (f p).card = p.card) : (b.modify id f).cards = b.cards := by
  rw [modify_eq_map]
  refine cards_map (fun e => ?_) b
  split
  · exact hf e.2
  · rfl

theorem Remains.cards {b b' : Board} (h : b.Remains b') : b'.cards = b.cards := by
  obtain ⟨g, hg, rfl⟩ := h
  exact cards_map (fun e => (hg e).card) b

theorem copiesIn_enter {b : Board} {p : Piece} (hfree : b.occupied p.hex = false)
    (hnew : b.contains p.id = false) (id : CardId) :
    copiesIn id (b.enter p).cards = copiesIn id b.cards + copiesIn id [p.card] := by
  rw [← copiesIn_cons]
  exact copiesIn_perm (((perm_enter hfree hnew).map Prod.snd).map Piece.card) id

/-- An object that leaves the board takes one card with it. -/
theorem copiesIn_erase {b : Board} {id : PieceId} {p : Piece} (hids : b.ids.Nodup)
    (h : b.get? id = some p) (card : CardId) :
    copiesIn card (b.erase id).cards + copiesIn card [p.card] = copiesIn card b.cards := by
  obtain ⟨before, after, hentries, -⟩ := List.lookup_eq_some_iff.1 h
  obtain ⟨es⟩ := b
  subst hentries
  have hother : ∀ e ∈ before ++ after, e.1 ≠ id := by
    have hids : (id :: (before ++ after).map (·.1)).Nodup :=
      (List.perm_middle.map Prod.fst).nodup_iff.1 hids
    intro e he heq
    exact (List.nodup_cons.1 hids).1 (List.mem_map.2 ⟨e, he, heq⟩)
  have herase : (⟨before ++ (id, p) :: after⟩ : Board).erase id = ⟨before ++ after⟩ := by
    have hkept : (before ++ after).filter (·.1 != id) = before ++ after :=
      List.filter_eq_self.2 fun e he => by simpa using hother e he
    simpa [erase, List.filter_append] using hkept
  rw [herase, ← copiesIn_cons]
  have hperm : ((id, p) :: (before ++ after)).Perm (before ++ (id, p) :: after) :=
    List.perm_middle.symm
  exact copiesIn_perm ((hperm.map Prod.snd).map Piece.card) card

end Board

/-! ### Cards under way -/

/-- How many copies of the card the player holds, in hand or on the discard pile. -/
def Seat.held (s : Seat) (id : CardId) : Nat := copiesIn id s.hand + copiesIn id s.discard

/-- The player's cards are where they were, whatever has become of their costs. -/
structure Seat.Rests (s s' : Seat) : Prop where
  hand : s'.hand.map (·.id) = s.hand.map (·.id)
  discard : s'.discard = s.discard
  deck : s'.deck = s.deck

namespace Match

/-- The cards that are still in a deck; those of a shared deck count once. -/
def undrawn (m : Match) : List Card :=
  match m.format with
  | .normal => (m.seat .blue).deck ++ (m.seat .orange).deck
  | .sharedDeck => (m.seat .blue).deck

/-- How many places hold a copy of the card. -/
def copies (m : Match) (id : CardId) : Nat :=
  (m.seat .blue).held id + (m.seat .orange).held id + copiesIn id m.board.cards +
    copiesIn id m.undrawn

/-- When the players share a deck, both have the same one. -/
def Shared (m : Match) : Prop :=
  m.format = .sharedDeck → (m.seat .blue).deck = (m.seat .orange).deck

/-- From a match with the cards `way` under way to one with the cards `way'` under way no copy is
lost, and none is added. -/
structure Moves (m : Match) (way : List Card) (m' : Match) (way' : List Card) : Prop where
  shared : m.Shared → m'.Shared
  copies : m.Shared → ∀ id, m.copies id + copiesIn id way = m'.copies id + copiesIn id way'

/-- Every card is where it was. -/
structure Rests (m m' : Match) : Prop where
  format : m'.format = m.format
  seat : ∀ c, (m.seat c).Rests (m'.seat c)
  board : m'.board.cards = m.board.cards

variable {m m' m'' : Match} {way way' way'' : List Card}

theorem undrawn_congr (hformat : m'.format = m.format)
    (hdecks : ∀ c, (m'.seat c).deck = (m.seat c).deck) : m'.undrawn = m.undrawn := by
  simp only [undrawn, hformat, hdecks]

theorem shared_congr (hformat : m'.format = m.format)
    (hdecks : ∀ c, (m'.seat c).deck = (m.seat c).deck) (hm : m.Shared) : m'.Shared := by
  intro hshared
  rw [hdecks, hdecks]
  exact hm (hformat.symm.trans hshared)

theorem Moves.trans (h : m.Moves way m' way') (h' : m'.Moves way' m'' way'') :
    m.Moves way m'' way'' where
  shared hm := h'.shared (h.shared hm)
  copies hm id := (h.copies hm id).trans (h'.copies (h.shared hm) id)

/-- Further cards may be under way all the time. -/
theorem Moves.beside (h : m.Moves way m' way') (others : List Card) :
    m.Moves (way ++ others) m' (way' ++ others) where
  shared := h.shared
  copies hm id := by
    have := h.copies hm id
    simp only [copiesIn_append]
    omega

/-! ### Changes that leave every card in its place -/

namespace Rests

theorem refl (m : Match) : m.Rests m := ⟨rfl, fun _ => ⟨rfl, rfl, rfl⟩, rfl⟩

theorem trans (h : m.Rests m') (h' : m'.Rests m'') : m.Rests m'' where
  format := h'.format.trans h.format
  seat c := ⟨(h'.seat c).hand.trans (h.seat c).hand, (h'.seat c).discard.trans (h.seat c).discard,
    (h'.seat c).deck.trans (h.seat c).deck⟩
  board := h'.board.trans h.board

theorem held (h : m.Rests m') (c : Color) (id : CardId) :
    (m'.seat c).held id = (m.seat c).held id := by
  unfold Seat.held
  rw [copiesIn_congr (h.seat c).hand, (h.seat c).discard]

theorem copies (h : m.Rests m') (id : CardId) : m'.copies id = m.copies id := by
  unfold Match.copies
  rw [h.held, h.held, h.board, undrawn_congr h.format fun c => (h.seat c).deck]

theorem moves (h : m.Rests m') (way : List Card) : m.Moves way m' way :=
  ⟨shared_congr h.format fun c => (h.seat c).deck, fun _ id => by rw [h.copies]⟩

/-- The seats are not touched. -/
theorem of_seats (hformat : m'.format = m.format) (hseats : m'.seats = m.seats)
    (hboard : m'.board.cards = m.board.cards) : m.Rests m' := by
  refine ⟨hformat, fun c => ?_, hboard⟩
  rw [Match.seat, Match.seat, hseats]
  exact ⟨rfl, rfl, rfl⟩

theorem addLog (c : Option Color) (text : String) (cards : List Card) (m : Match) :
    m.Rests (m.addLog c text cards) := of_seats rfl rfl rfl

theorem changeSeat (c : Color) (f : Seat → Seat) (hf : ∀ s : Seat, s.Rests (f s)) (m : Match) :
    m.Rests (m.changeSeat c f) := by
  refine ⟨rfl, fun d => ?_, rfl⟩
  cases c <;> cases d <;> first | exact hf _ | exact ⟨rfl, rfl, rfl⟩

theorem changeHand (c : Color) {f : List Card → List Card}
    (hf : ∀ cards, (f cards).map (·.id) = cards.map (·.id)) (m : Match) :
    m.Rests (m.changeSeat c fun s => { s with hand := f s.hand }) :=
  changeSeat c (fun s => { s with hand := f s.hand }) (fun s => ⟨hf s.hand, rfl, rfl⟩) m

theorem changeBoard {f : Board → Board} (hf : ∀ b : Board, (f b).cards = b.cards) (m : Match) :
    m.Rests (m.changeBoard f) := of_seats rfl rfl (hf m.board)

theorem changePiece (id : PieceId) {f : Piece → Piece} (hf : ∀ p, (f p).card = p.card) (m : Match) :
    m.Rests (m.changePiece id f) := changeBoard (fun b => b.cards_modify id hf) m

theorem mapPieces {f : Piece → Piece} (hf : ∀ p : Piece, p.Remains (f p)) (m : Match) :
    m.Rests (m.changeBoard (·.mapPieces f)) :=
  changeBoard (fun b => (Board.Remains.mapPieces hf b).cards) m

theorem changeCard (c : Color) (id : CardId) {f : Card → Card} (hf : ∀ card, (f card).id = card.id)
    (m : Match) : m.Rests (m.changeCard c id f) :=
  changeHand c (Seat.map_changeFirst hf) m

theorem dropCosts (ability : AbilityId) (c : Color) (m : Match) :
    m.Rests (m.changeSeat c fun s => { s with hand := s.hand.map (·.dropCostOf ability) }) :=
  changeHand c (f := fun cards => cards.map (·.dropCostOf ability)) (fun _ => List.map_map) m

theorem setSelection (c : Color) (selection : Selection) (m : Match) :
    m.Rests (m.setSelection c selection) :=
  changeSeat c (fun s => { s with selection := selection }) (fun _ => ⟨rfl, rfl, rfl⟩) m

theorem setStatus (c : Color) (text : String) (m : Match) : m.Rests (m.setStatus c text) :=
  changeSeat c (fun s => { s with status := text }) (fun _ => ⟨rfl, rfl, rfl⟩) m

theorem withdrawApplied (a : Passive) (m : Match) : m.Rests (m.withdrawApplied a) := by
  unfold Match.withdrawApplied
  split
  · unfold withdraw
    split
    · exact ((mapPieces (f := (·.dropAdjustments a.id))
        (fun _ => ⟨rfl, rfl, rfl, .refl _, .refl _⟩) m).trans (dropCosts a.id .blue _)).trans
          (dropCosts a.id .orange _)
    · exact mapPieces (f := (·.dropStatuses a.id)) (fun _ => ⟨rfl, rfl, rfl, .refl _, .refl _⟩) m
    · exact mapPieces (f := (·.setGrants a.id true)) (·.remains_setGrants a.id true) m
    · exact mapPieces (f := (·.dropActivations a.id)) (fun _ => ⟨rfl, rfl, rfl, .refl _, .refl _⟩) m
  · exact refl m

theorem withdrawAll (as : List Passive) (m : Match) : m.Rests (m.withdrawAll as) := by
  induction as generalizing m with
  | nil => exact refl m
  | cons a as ih => exact (withdrawApplied a m).trans (ih (m.withdrawApplied a))

theorem checkVictory (m : Match) : m.Rests m.checkVictory := by
  have hboard : m.checkVictory.board.cards = m.board.cards := by rw [board_checkVictory]
  refine of_seats ?_ ?_ hboard <;> unfold Match.checkVictory
  all_goals
    split
    · rfl
    · split
      · unfold declareWinner
        dsimp only
        split <;> rfl
      · rfl

theorem chime (c : Color) (m : Match) : m.Rests (m.chime c) := by
  unfold Match.chime
  split
  · exact of_seats rfl rfl rfl
  · exact refl m

theorem takeControl (owner : Color) (id : PieceId) (m : Match) :
    m.Rests (Resolving.takeControl owner id m) := by
  unfold Resolving.takeControl
  split
  · exact .refl m
  · split
    · exact .refl m
    · exact (changePiece id (f := (·.joining owner)) (fun _ => rfl) m).trans (addLog _ _ _ _)

theorem moveTo (id : PieceId) (hex : Hex) (m : Match) :
    m.Rests (Resolving.moveTo id hex m) := by
  unfold Resolving.moveTo
  split
  · exact changePiece id (f := (·.moveTo hex)) (fun _ => rfl) m
  · exact .refl m

end Rests

/-! ### Cards that are taken and put -/

@[simp] theorem seat_changeSeat_self (m : Match) (c : Color) (f : Seat → Seat) :
    (m.changeSeat c f).seat c = f (m.seat c) := PerSide.get_modify_self m.seats c f

@[simp] theorem seat_changeSeat_opponent (m : Match) (c : Color) (f : Seat → Seat) :
    (m.changeSeat c f).seat c.opponent = m.seat c.opponent :=
  PerSide.get_modify_of_ne m.seats c.opponent_ne.symm f

theorem copies_eq (m : Match) (c : Color) (id : CardId) :
    m.copies id = (m.seat c).held id + (m.seat c.opponent).held id + copiesIn id m.board.cards +
      copiesIn id m.undrawn := by
  cases c with
  | blue => rfl
  | orange => rw [copies, Nat.add_comm ((m.seat .blue).held id)]; rfl

theorem format_takeTop (m : Match) (c : Color) : (m.takeTop c).format = m.format := by
  unfold takeTop
  dsimp only
  split <;> rfl

theorem held_takeTop (m : Match) (c d : Color) (id : CardId) :
    ((m.takeTop c).seat d).held id = (m.seat d).held id := by
  unfold takeTop
  dsimp only
  split <;> cases c <;> cases d <;> rfl

theorem deck_takeTop (m : Match) (c d : Color) : ((m.takeTop c).seat d).deck =
    if d = c ∨ m.format = .sharedDeck then (m.seat d).deck.tail else (m.seat d).deck := by
  have hformat : ∀ f, (m.changeSeat c f).format = m.format := fun _ => rfl
  simp only [takeTop, hformat]
  cases m.format <;> cases c <;> cases d <;> rfl

/-- The top card of a shared deck leaves both players' decks, which is why they have to be the
same. -/
theorem perm_takeTop {c : Color} {card : Card} (hm : m.Shared) (h : m.topCard? c = some card) :
    m.undrawn.Perm (card :: (m.takeTop c).undrawn) := by
  obtain ⟨rest, hdeck⟩ := List.head?_eq_some_iff.1 h
  unfold undrawn
  rw [format_takeTop, deck_takeTop, deck_takeTop]
  cases hformat : m.format with
  | normal => cases c <;> simp [hdeck]
  | sharedDeck =>
    have hblue : (m.seat .blue).deck = card :: rest := by
      cases c with
      | blue => exact hdeck
      | orange => exact (hm hformat).trans hdeck
    simp [hblue]

namespace Moves

/-- A change on the side of one player that does not touch the deck. -/
theorem changeSeat {c : Color} {f : Seat → Seat} (hdeck : (f (m.seat c)).deck = (m.seat c).deck)
    (hheld : ∀ id, (m.seat c).held id + copiesIn id way =
      (f (m.seat c)).held id + copiesIn id way') : m.Moves way (m.changeSeat c f) way' := by
  have hdecks : ∀ d, ((m.changeSeat c f).seat d).deck = (m.seat d).deck := by
    intro d
    cases c <;> cases d <;> first | rfl | exact hdeck
  refine ⟨shared_congr rfl hdecks, fun _ id => ?_⟩
  have heq := hheld id
  have hboard : (m.changeSeat c f).board = m.board := rfl
  have hundrawn : (m.changeSeat c f).undrawn = m.undrawn := undrawn_congr rfl hdecks
  rw [copies_eq m c, copies_eq (m.changeSeat c f) c, seat_changeSeat_self,
    seat_changeSeat_opponent, hboard, hundrawn]
  omega

theorem changeBoard {f : Board → Board} (hcards : ∀ id, copiesIn id m.board.cards +
    copiesIn id way = copiesIn id (f m.board).cards + copiesIn id way') :
    m.Moves way (m.changeBoard f) way' := by
  refine ⟨id, fun _ id => ?_⟩
  have heq := hcards id
  change (m.seat .blue).held id + (m.seat .orange).held id + copiesIn id m.board.cards +
    copiesIn id m.undrawn + copiesIn id way = (m.seat .blue).held id + (m.seat .orange).held id +
      copiesIn id (f m.board).cards + copiesIn id m.undrawn + copiesIn id way'
  omega

/-- What abilities hold on the cost of a card is no part of the card. -/
theorem reset (card : Card) (m : Match) : m.Moves [card] m [card.reset] :=
  ⟨id, fun _ _ => rfl⟩

theorem addToHand (c : Color) (card : Card) (m : Match) :
    m.Moves [card] (m.addToHand c card) [] := by
  refine changeSeat rfl fun id => ?_
  simp only [Seat.held, copiesIn_append, copiesIn_nil]
  omega

theorem discard (c : Color) (card : Card) (m : Match) :
    m.Moves [card] (m.discard c card) [] := by
  refine changeSeat rfl fun id => ?_
  simp only [Seat.held, copiesIn_append, copiesIn_nil]
  omega

theorem giveBack (c : Color) (card : Card) (m : Match) :
    m.Moves [card] (Play.giveBack c card m) [] := by
  unfold Play.giveBack
  split
  · exact (discard c card m).trans ((Rests.addLog _ _ _ _).moves [])
  · exact addToHand c card m

theorem dropFromHand {c : Color} {i : CardId} {card : Card}
    (h : (m.seat c).cardInHand? i = some card) : m.Moves [] (m.dropFromHand c i) [card] := by
  refine changeSeat rfl fun id => ?_
  have hhand := copiesIn_eraseP h id
  simp only [Seat.held, copiesIn_nil]
  omega

theorem enter {p : Piece} (hfree : m.board.occupied p.hex = false)
    (hnew : m.board.contains p.id = false) :
    m.Moves [p.card] (m.changeBoard (·.enter p)) [] :=
  changeBoard fun id => (Board.copiesIn_enter hfree hnew id).symm

theorem erase {i : PieceId} {p : Piece} (hids : m.board.ids.Nodup) (h : m.board.get? i = some p) :
    m.Moves [] (m.changeBoard (·.erase i)) [p.card] :=
  changeBoard fun id => (Board.copiesIn_erase hids h id).symm

theorem takeTop {c : Color} {card : Card} (h : m.topCard? c = some card) :
    m.Moves [] (m.takeTop c) [card] := by
  refine ⟨fun hm hshared => ?_, fun hm id => ?_⟩
  · rw [format_takeTop] at hshared
    rw [deck_takeTop, deck_takeTop, if_pos (.inr hshared), if_pos (.inr hshared), hm hshared]
  · have htop := copiesIn_perm (perm_takeTop hm h) id
    rw [copiesIn_cons] at htop
    unfold Match.copies
    rw [held_takeTop, held_takeTop, board_takeTop, copiesIn_nil]
    omega

theorem drawTop (c : Color) (m : Match) : m.Moves [] (m.drawTop c) [] := by
  unfold Match.drawTop
  split
  · exact (Rests.refl m).moves []
  · rename_i card htop
    exact (takeTop htop).trans (addToHand c card _)

theorem burnTop (c : Color) (m : Match) : m.Moves [] (m.burnTop c) [] := by
  unfold Match.burnTop
  split
  · exact (Rests.refl m).moves []
  · rename_i card htop
    exact (takeTop htop).trans (discard c card _)

theorem drawTimes (c : Color) (count : Nat) (m : Match) :
    m.Moves [] (Play.drawTimes c count m) [] := by
  induction count generalizing m with
  | zero => exact (Rests.refl m).moves []
  | succ count ih =>
    unfold Play.drawTimes
    split
    · exact (Rests.refl m).moves []
    · exact (drawTop c m).trans (ih (m.drawTop c))

theorem burnTimes (c : Color) (count : Nat) (m : Match) :
    m.Moves [] (Play.burnTimes c count m) [] := by
  induction count generalizing m with
  | zero => exact (Rests.refl m).moves []
  | succ count ih =>
    unfold Play.burnTimes
    split
    · exact (Rests.refl m).moves []
    · exact (burnTop c m).trans (((Rests.addLog _ _ _ _).moves []).trans (ih _))

theorem deal (c : Color) (count : Nat) (m : Match) : m.Moves [] (Play.deal c count m) [] :=
  (drawTimes c _ m).trans (burnTimes c _ _)

end Moves
end Match
end HexDuel
