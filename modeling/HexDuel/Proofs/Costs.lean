import HexDuel.Proofs.Imprints

/-!
What abilities hold on the costs of cards. Only cards in hand are charged; a card that leaves a hand
is reset, and one that is drawn comes as it was in the deck.
-/

set_option autoImplicit false

namespace HexDuel

/-! ### Seats -/

/-- Each card in hand is of one kind, and each card in the deck and on the discard pile is of
another. -/
structure Seat.Stocked (D H : Card → Prop) (s : Seat) : Prop where
  hand : ∀ card ∈ s.hand, H card
  deck : ∀ card ∈ s.deck, D card
  discard : ∀ card ∈ s.discard, D card

/-- Kinds of cards that go by the costs alone and that no cost is too low for. -/
structure Stockable (D H : Card → Prop) : Prop where
  plain : ∀ card, card.costAdjustments = [] → D card
  drawn : ∀ card, D card → H card
  reprint : ∀ card cost stats, H card → H (Resolving.reprint cost stats card)
  drop : ∀ card id, H card → H (card.dropCostOf id)

/-- A card stays of its kind when that ability charges it. -/
def Chargeable (H : Card → Prop) (id : AbilityId) : Prop :=
  ∀ card adjustment, H card → H (card.adjustCost id adjustment)

/-- What is held on every card holds of those in which the first of that id changes. -/
theorem Seat.forall_changeFirst {P : Card → Prop} {f : Card → Card}
    (hf : ∀ card, P card → P (f card)) (id : CardId) {cards : List Card}
    (h : ∀ card ∈ cards, P card) :
    ∀ card ∈ changeFirst id f cards, P card := by
  induction cards with
  | nil => exact h
  | cons c cs ih =>
    have hfirst : P c := h c List.mem_cons_self
    have hrest : ∀ card ∈ cs, P card := fun card hcard => h card (List.mem_cons_of_mem _ hcard)
    unfold changeFirst
    split
    · exact List.forall_mem_cons.2 ⟨hf c hfirst, hrest⟩
    · exact List.forall_mem_cons.2 ⟨hfirst, ih hrest⟩

namespace Match

def Stocked (D H : Card → Prop) (m : Match) : Prop := ∀ c, (m.seat c).Stocked D H

namespace Stocked

variable {D H : Card → Prop} {m m' : Match}

theorem of_seats (hm : m.Stocked D H) (h : m'.seats = m.seats) : m'.Stocked D H := by
  intro c
  have hseat : m'.seat c = m.seat c := by rw [seat, seat, h]
  rw [hseat]
  exact hm c

theorem changeSeat (hm : m.Stocked D H) (c : Color) {f : Seat → Seat}
    (hf : (m.seat c).Stocked D H → (f (m.seat c)).Stocked D H) :
    (m.changeSeat c f).Stocked D H := by
  intro d
  by_cases hd : c = d
  · subst hd
    have hself : (m.changeSeat c f).seat c = f (m.seat c) := PerSide.get_modify_self m.seats c f
    rw [hself]
    exact hf (hm c)
  · have hother : (m.changeSeat c f).seat d = m.seat d := PerSide.get_modify_of_ne m.seats hd f
    rw [hother]
    exact hm d

/-- What the cards have no part in. -/
theorem beside (hm : m.Stocked D H) (c : Color) {f : Seat → Seat}
    (hf : ∀ s : Seat, (f s).hand = s.hand ∧ (f s).deck = s.deck ∧ (f s).discard = s.discard) :
    (m.changeSeat c f).Stocked D H := by
  refine hm.changeSeat c fun hs => ?_
  obtain ⟨hhand, hdeck, hdiscard⟩ := hf (m.seat c)
  exact ⟨hhand ▸ hs.hand, hdeck ▸ hs.deck, hdiscard ▸ hs.discard⟩

theorem setSelection (hm : m.Stocked D H) (c : Color) (selection : Selection) :
    (m.setSelection c selection).Stocked D H :=
  hm.beside c (f := fun s => { s with selection := selection }) fun _ => ⟨rfl, rfl, rfl⟩

theorem setStatus (hm : m.Stocked D H) (c : Color) (text : String) :
    (m.setStatus c text).Stocked D H :=
  hm.beside c (f := fun s => { s with status := text }) fun _ => ⟨rfl, rfl, rfl⟩

theorem addToHand (hm : m.Stocked D H) (c : Color) {card : Card} (hcard : H card) :
    (m.addToHand c card).Stocked D H := by
  refine hm.changeSeat c fun hs => ⟨fun x hx => ?_, hs.deck, hs.discard⟩
  obtain hx | hx := List.mem_append.1 hx
  · exact hs.hand x hx
  · exact List.mem_singleton.1 hx ▸ hcard

theorem discard (hm : m.Stocked D H) (c : Color) {card : Card} (hcard : D card) :
    (m.discard c card).Stocked D H := by
  refine hm.changeSeat c fun hs => ⟨hs.hand, hs.deck, fun x hx => ?_⟩
  obtain hx | hx := List.mem_append.1 hx
  · exact hs.discard x hx
  · exact List.mem_singleton.1 hx ▸ hcard

theorem dropFromHand (hm : m.Stocked D H) (c : Color) (id : CardId) :
    (m.dropFromHand c id).Stocked D H :=
  hm.changeSeat c fun hs =>
    ⟨fun x hx => hs.hand x (List.mem_of_mem_eraseP hx), hs.deck, hs.discard⟩

theorem changeCard (hm : m.Stocked D H) (c : Color) (id : CardId) {f : Card → Card}
    (hf : ∀ card, H card → H (f card)) : (m.changeCard c id f).Stocked D H :=
  hm.changeSeat c fun hs => ⟨Seat.forall_changeFirst hf id hs.hand, hs.deck, hs.discard⟩

theorem adjustCostOf (hm : m.Stocked D H) {ability : AbilityId} (hH : Chargeable H ability)
    (adjustment : Adjustment) (id : CardId) :
    (Resolving.adjustCostOf ability adjustment id m).Stocked D H := by
  unfold Resolving.adjustCostOf
  split
  · exact hm.changeCard _ id (f := (·.adjustCost ability adjustment)) fun card => hH card adjustment
  · exact hm

/-! ### Draws -/

theorem takeTop (hm : m.Stocked D H) (c : Color) : (m.takeTop c).Stocked D H := by
  have htail : ∀ s : Seat, s.Stocked D H → Seat.Stocked D H { s with deck := s.deck.tail } :=
    fun s hs => ⟨hs.hand, fun x hx => hs.deck x (List.mem_of_mem_tail hx), hs.discard⟩
  unfold Match.takeTop
  dsimp only
  have hfirst := hm.changeSeat c (f := fun s => { s with deck := s.deck.tail }) (htail _)
  split
  · exact hfirst
  · exact hfirst.changeSeat c.opponent (f := fun s => { s with deck := s.deck.tail }) (htail _)

theorem topCard (hm : m.Stocked D H) {c : Color} {card : Card} (h : m.topCard? c = some card) :
    D card := (hm c).deck card (List.mem_of_mem_head? h)

theorem drawTop (hm : m.Stocked D H) (hDH : Stockable D H) (c : Color) :
    (m.drawTop c).Stocked D H := by
  unfold Match.drawTop
  split
  · exact hm
  · rename_i card htop
    exact (hm.takeTop c).addToHand c (hDH.drawn card (hm.topCard htop))

theorem burnTop (hm : m.Stocked D H) (c : Color) : (m.burnTop c).Stocked D H := by
  unfold Match.burnTop
  split
  · exact hm
  · rename_i card htop
    exact (hm.takeTop c).discard c (hm.topCard htop)

theorem drawTimes (hm : m.Stocked D H) (hDH : Stockable D H) (c : Color) (count : Nat) :
    (Play.drawTimes c count m).Stocked D H := by
  induction count generalizing m with
  | zero => exact hm
  | succ count ih =>
    unfold Play.drawTimes
    split
    · exact hm
    · exact ih (hm.drawTop hDH c)

theorem burnTimes (hm : m.Stocked D H) (c : Color) (count : Nat) :
    (Play.burnTimes c count m).Stocked D H := by
  induction count generalizing m with
  | zero => exact hm
  | succ count ih =>
    unfold Play.burnTimes
    split
    · exact hm
    · have hburnt : (m.burnTop c).Stocked D H := hm.burnTop c
      exact ih (hburnt.of_seats rfl)

theorem giveBack (hm : m.Stocked D H) (hDH : Stockable D H) (c : Color) (card : Card) :
    (Play.giveBack c card.reset m).Stocked D H := by
  have hplain : D card.reset := hDH.plain card.reset rfl
  unfold Play.giveBack
  split
  · exact (hm.discard c hplain).of_seats rfl
  · exact hm.addToHand c (hDH.drawn _ hplain)

theorem checkVictory (hm : m.Stocked D H) : m.checkVictory.Stocked D H := by
  refine hm.of_seats ?_
  unfold Match.checkVictory
  split
  · rfl
  · split
    · unfold declareWinner
      dsimp only
      split <;> rfl
    · rfl

/-! ### Withdrawals -/

theorem mono (hm : m.Stocked D H) {H' : Card → Prop} (hH : ∀ card, H card → H' card) :
    m.Stocked D H' := fun c => ⟨fun card hcard => hH card ((hm c).hand card hcard), (hm c).deck,
      (hm c).discard⟩

/-- Every card in a hand changes. -/
theorem mapHand (hm : m.Stocked D H) {H' : Card → Prop} {f : Card → Card}
    (hf : ∀ card, H card → H' (f card)) :
    (Color.all.foldl (fun m c => m.changeSeat c fun s => { s with hand := s.hand.map f }) m).Stocked
      D H' := by
  have hseat : ∀ s : Seat, s.Stocked D H → Seat.Stocked D H' { s with hand := s.hand.map f } := by
    refine fun s hs => ⟨fun card hcard => ?_, hs.deck, hs.discard⟩
    obtain ⟨card, hbefore, rfl⟩ := List.mem_map.1 hcard
    exact hf card (hs.hand card hbefore)
  intro c
  cases c with
  | blue => exact hseat _ (hm .blue)
  | orange => exact hseat _ (hm .orange)

theorem withdrawApplied (hm : m.Stocked D H) (hdrop : ∀ card id, H card → H (card.dropCostOf id))
    (a : Passive) : (m.withdrawApplied a).Stocked D fun card =>
      H card ∧ ∀ x ∈ card.costAdjustments, a.Leaves .adjustment → a.id ≠ x.ability := by
  unfold Match.withdrawApplied
  split
  · obtain ⟨ability, source, targets, effect, duration, disabled, applied⟩ := a
    cases effect with
    | adjust =>
      have hboard : (m.changeBoard (·.mapPieces (·.dropAdjustments ability))).Stocked D H :=
        hm.of_seats rfl
      refine hboard.mapHand (f := (·.dropCostOf ability)) fun card hcard =>
        ⟨hdrop card ability hcard, fun x hx _ => ?_⟩
      exact Ne.symm (by simpa using (List.mem_filter.1 hx).2)
    | _ =>
      exact (hm.of_seats rfl).mono fun card hcard =>
        ⟨hcard, fun _ _ hleaves => nomatch hleaves.2⟩
  · rename_i hnot
    exact hm.mono fun card hcard => ⟨hcard, fun _ _ hleaves => absurd hleaves.1 hnot⟩

theorem withdrawAll (hm : m.Stocked D H) (hdrop : ∀ card id, H card → H (card.dropCostOf id))
    (as : List Passive) : (m.withdrawAll as).Stocked D fun card =>
      H card ∧ ∀ x ∈ card.costAdjustments, ∀ a ∈ as, a.Leaves .adjustment → a.id ≠ x.ability := by
  induction as generalizing m H with
  | nil => exact hm.mono fun card hcard => ⟨hcard, fun _ _ _ ha => nomatch ha⟩
  | cons a as ih =>
    have hfirst := ih (hm.withdrawApplied hdrop a) fun card id hcard =>
      ⟨hdrop card id hcard.1, fun x hx => hcard.2 x (List.mem_filter.1 hx).1⟩
    exact hfirst.mono fun card hcard => ⟨hcard.1.1, fun x hx =>
      List.forall_mem_cons.2 ⟨hcard.1.2 x hx, hcard.2 x hx⟩⟩

end Stocked
end Match

/-! ### Acts -/

variable {D H : Card → Prop} {s s' : Stage}

theorem Inquiry.stocked (h : Inquiry s s') (hs : s.game.Stocked D H) : s'.game.Stocked D H := by
  cases h with
  | consult _ hc =>
    cases hc with
    | answered => exact hs.setSelection _ _
    | waiting => exact hs
    | refused => exact hs.of_seats rfl
    | suspended => exact hs.setSelection _ _
  | _ => exact hs.of_seats rfl

theorem Match.Stocked.inquired (hs : s.game.Stocked D H) (h : Relation.ReflTransGen Inquiry s s') :
    s'.game.Stocked D H := by
  induction h with
  | refl => exact hs
  | tail _ hlast ih => exact hlast.stocked ih

theorem Turnover.stocked {f : Match → Match} (h : Turnover f) {m : Match} (hm : m.Stocked D H) :
    (f m).Stocked D H := by
  cases h with
  | setEnergy c energy => exact hm.beside c fun _ => ⟨rfl, rfl, rfl⟩
  | setAvailable c available => exact hm.beside c fun _ => ⟨rfl, rfl, rfl⟩
  | checkVictory => exact hm.checkVictory
  | chime c =>
    refine hm.of_seats ?_
    change (m.chime c).seats = m.seats
    unfold Match.chime
    split <;> rfl
  | _ => exact hm.of_seats rfl

theorem Stage.stocked_place {card : Card} {hex : Hex} {owner : Color} {justPlayed : Bool}
    (hs : s.game.Stocked D H) : (s.place card hex owner justPlayed).game.Stocked D H :=
  hs.of_seats rfl

theorem Errand.stocked (h : Errand s s') (hDH : Stockable D H) (hs : s.game.Stocked D H) :
    s'.game.Stocked D H := by
  cases h with
  | inquiry h => exact h.stocked hs
  | note | ending => exact hs
  | turnover hf => exact hf.stocked hs
  | takeControl owner id =>
    refine hs.of_seats ?_
    change (Resolving.takeControl owner id s.game).seats = s.game.seats
    unfold Resolving.takeControl
    split
    · rfl
    · split <;> rfl
  | moveTo id hex =>
    refine hs.of_seats ?_
    change (Resolving.moveTo id hex s.game).seats = s.game.seats
    unfold Resolving.moveTo
    split <;> rfl
  | play => exact Stage.stocked_place (s := s.map _) (hs.dropFromHand _ _)
  | spend => exact (hs.dropFromHand _ _).discard _ (hDH.plain _ rfl)
  | reprint c id cost stats => exact hs.changeCard c id fun card => hDH.reprint card cost stats
  | deal c count => exact (hs.drawTimes hDH c _).burnTimes c _
  | leave c => exact (hs.setSelection c .none).setStatus c ""
  | _ => exact hs.of_seats rfl

theorem Tending.stocked (h : Tending s s') (hDH : Stockable D H) (hcharge : ∀ id, Chargeable H id)
    (hs : s.game.Stocked D H) : s'.game.Stocked D H := by
  cases h with
  | inquiry h => exact h.stocked hs
  | withdrawApplied a => exact (hs.withdrawApplied hDH.drop a).mono fun _ => And.left
  | dropDisabled =>
    have hdropped : (s.game.changeBoard (·.mapPieces (·.dropDisabled))).Stocked D H :=
      hs.of_seats rfl
    exact (hdropped.withdrawAll hDH.drop _).mono fun _ => And.left
  | adjustCostOf ability adjustment id => exact hs.adjustCostOf (hcharge ability) adjustment id
  | _ => exact hs.of_seats rfl

theorem Match.Stocked.tended (hs : s.game.Stocked D H) (hDH : Stockable D H)
    (hcharge : ∀ id, Chargeable H id) (h : Relation.ReflTransGen Tending s s') :
    s'.game.Stocked D H := by
  induction h with
  | refl => exact hs
  | tail _ hlast ih => exact hlast.stocked hDH hcharge ih

theorem TakenOff.stocked {id : PieceId} {p : Piece} (h : TakenOff s id p s') (hDH : Stockable D H)
    (hcharge : ∀ id, Chargeable H id) (hs : s.game.Stocked D H) : s'.game.Stocked D H :=
  Match.Stocked.tended (s := s.map (·.changeBoard (·.erase id))) (hs.of_seats rfl) hDH hcharge
    h.removed.tended

/-- As long as abilities charge the cards as they like, all cards stay of their kinds. -/
theorem Act.stocked (h : Act s s') (hDH : Stockable D H) (hcharge : ∀ id, Chargeable H id)
    (hs : s.game.Stocked D H) : s'.game.Stocked D H := by
  induction h with
  | refl s => exact hs
  | trans _ _ ih ih' => exact ih' (ih hs)
  | errand h => exact h.stocked hDH hs
  | reapply h => exact hs.tended hDH hcharge (Play.goes_reapply _ _ _ h)
  | install id sentence duration h => exact hs.tended hDH hcharge (Play.goes_grant _ _ _ _ _ _ _ h)
  | tickDurations s =>
    have hcounted : (s.game.changeBoard (·.mapPieces (·.countDown))).Stocked D H := hs.of_seats rfl
    exact (hcounted.withdrawAll hDH.drop _).mono fun _ => And.left
  | condemn id => exact hs.of_seats rfl
  | @destroy id card s start fallen s' hdooms _ hburied ih =>
    have hstart : start.game.Stocked D H := by
      obtain rfl | rfl := hdooms
      · exact hs
      · exact hs.of_seats rfl
    have hfallen := ih (hstart.of_seats rfl)
    cases hburied with
    | gone => exact hfallen
    | discard h => exact (h.stocked hDH hcharge hfallen).checkVictory.discard _ (hDH.plain _ rfl)
  | giveBack h => exact (h.stocked hDH hcharge hs).checkVictory.giveBack hDH _ _
  | spawn _ hresolve _ hinquired =>
    have hfound := Resolving.inquired_of_resolve hresolve
    exact Stage.stocked_place (hs.inquired (hfound.trans hinquired))

end HexDuel
