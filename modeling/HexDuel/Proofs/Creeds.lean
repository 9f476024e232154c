import HexDuel.Proofs.Cells
import HexDuel.Proofs.Fits

/-!
What becomes of a match that abides by a creed: every change that a resolution makes leaves one that
does. A creed is coherent when it holds of all that its sentences give and do.
-/

set_option autoImplicit false

namespace HexDuel

/-- Its sentences fit, and what they give and do is of the creed again. How long something lasts is
no part of it. -/
structure Creed.Coherent (K : Creed) : Prop where
  fits : ∀ s, K.admits s → s.Fits
  head : ∀ a as, K.admits (.actions (a :: as)) → K.admits (.actions [a])
  tail : ∀ a as, K.admits (.actions (a :: as)) → K.admits (.actions as)
  given : ∀ target s duration, K.admits (.actions [.giveAbility target s duration]) → K.admits s
  branch : ∀ condition as, K.admits (.actions [.ifHolds condition as]) → K.admits (.actions as)
  ability : ∀ targets effect duration, K.admits (.setAbility ⟨targets, effect, duration⟩) →
    K.admits (.setAbility ⟨targets, effect, none⟩)
  trigger : ∀ spec actions overrides duration,
    K.admits (.setTrigger ⟨spec, actions, overrides, duration⟩) →
    K.admits (.setTrigger ⟨spec, actions, overrides, none⟩)
  reaction : ∀ spec actions overrides duration,
    K.admits (.setTrigger ⟨spec, actions, overrides, duration⟩) → K.admits (.actions actions)
  granted : ∀ targets s duration, K.admits (.setAbility ⟨targets, .grant s, duration⟩) → K.admits s
  activated : ∀ targets text as duration,
    K.admits (.setAbility ⟨targets, .activated text as, duration⟩) →
    K.admits (.actions as) ∧ K.invokes as

theorem Creed.coherent_plain : Creed.plain.Coherent where
  fits _ h := h
  head _ _ h := ⟨h.1, trivial⟩
  tail _ _ h := h.2
  given _ _ _ h := h.1.2.1
  branch _ _ h := h.1.2
  ability _ _ _ h := ⟨h.1, h.2.1, fun _ hn => nomatch hn⟩
  trigger _ _ _ _ h := ⟨h.1, h.2.1, fun _ hn => nomatch hn⟩
  reaction _ _ _ _ h := h.2.1
  granted _ _ _ h := h.2.1
  activated _ _ _ _ h := ⟨h.2.1, trivial⟩

variable {K : Creed}

/-! ### Numbers -/

theorem fits32_iff {i : Int} : Fits32 i ↔ -2147483648 ≤ i ∧ i ≤ 2147483647 := Iff.rfl

theorem fits32_zero : Fits32 0 := by
  rw [fits32_iff]
  omega

theorem Adjustment.fits32_saturate (i : Int) : Fits32 (saturate i) := by
  rw [fits32_iff, saturate]
  simp only [Width.least32, Width.most32]
  omega

theorem Outcome.fits32_wrap32 (length : Nat) : Fits32 (wrap32 length) := by
  rw [fits32_iff, wrap32]
  simp only [Width.most32, Width.end32]
  omega

/-! ### Cards -/

namespace Card.Abides
variable {c : Card}

theorem reset (h : c.Abides K) : c.reset.Abides K :=
  { h with costAdjustments := fun _ ha => nomatch ha }

theorem baseHealth (h : c.Abides K) : Fits32 c.baseHealth := by
  unfold Card.baseHealth
  cases hs : c.stats with
  | none => exact fits32_zero
  | some s => exact (h.stats s hs).health

theorem adjustCost (h : c.Abides K) {ability : AbilityId} (hability : FitsId ability)
    {adjustment : Adjustment} (hadjustment : adjustment.Fits) :
    (c.adjustCost ability adjustment).Abides K := by
  unfold Card.adjustCost
  split
  · exact h
  · refine { h with costAdjustments := ?_ }
    exact List.forall_mem_append.2 ⟨h.costAdjustments,
      List.forall_mem_singleton.2 ⟨hability, hadjustment⟩⟩

theorem dropCostOf (h : c.Abides K) (ability : AbilityId) : (c.dropCostOf ability).Abides K :=
  { h with costAdjustments := fun a ha => h.costAdjustments a (List.mem_filter.1 ha).1 }

theorem reprint (h : c.Abides K) {cost : Int} (hcost : Fits32 cost) {stats : Option Stats}
    (hstats : ∀ s ∈ stats, s.Fits) : (Resolving.reprint cost stats c).Abides K :=
  { h with cost := hcost, stats := hstats }

end Card.Abides

/-! ### Objects -/

theorem Stats.Fits.get {s : Stats} (h : s.Fits) {stat : Attribute} {i : Int}
    (hi : s.get stat = some i) : Fits32 i := by
  cases stat with
  | attack => exact h.attack i hi
  | health => exact Option.some.inj hi ▸ h.health
  | speed => exact h.speed i hi

theorem Stats.Fits.set {s : Stats} (h : s.Fits) (stat : Attribute) {i : Int} (hi : Fits32 i) :
    (s.set stat i).Fits := by
  have hmap : ∀ o : Option Int, ∀ j ∈ o.map fun _ => i, Fits32 j := by
    intro o j hj
    obtain ⟨_, _, rfl⟩ := Option.map_eq_some_iff.1 hj
    exact hi
  cases stat with
  | attack => exact { h with attack := hmap _ }
  | health => exact { h with health := hi }
  | speed => exact { h with speed := hmap _ }

theorem Stats.fits_still {health : Int} (h : Fits32 health) : (still health).Fits :=
  ⟨fun _ hi => (nomatch hi), h, fun _ hi => nomatch hi⟩

theorem fits_tickDuration {d : Option Nat} (h : ∀ n ∈ d, FitsCount n) :
    ∀ n ∈ (tickDuration d).2, FitsCount n := by
  unfold tickDuration
  split
  · rename_i n
    intro k hk
    obtain rfl := Option.some.inj hk
    exact Nat.lt_of_succ_lt (h (n + 2) rfl)
  · exact h
  · exact fun _ hn => nomatch hn

theorem Passive.Abides.ticked {a b : Passive} (h : a.Abides K) (hb : a.tick = some b) :
    b.Abides K := by
  have hduration := fits_tickDuration h.duration
  unfold Passive.tick at hb
  split at hb
  · cases hb
  · rename_i d htick
    rw [htick] at hduration
    cases hb
    exact { h with duration := hduration }

theorem Trigger.Abides.ticked {t u : Trigger} (h : t.Abides K) (hu : t.tick = some u) :
    u.Abides K := by
  have hduration := fits_tickDuration h.duration
  unfold Trigger.tick at hu
  split at hu
  · cases hu
  · rename_i d htick
    rw [htick] at hduration
    cases hu
    exact { h with duration := hduration }

namespace Piece.Abides
variable {p : Piece}

theorem new {id : PieceId} {card : Card} {hex : Hex} (hid : FitsId id) (hcard : card.Abides K)
    (hstands : card.type.isPiece = true) (hhex : hex.Fits) (owner : Color) :
    (Piece.new id card owner hex).Abides K where
  id := hid
  card := hcard
  stands := hstands
  hex := hhex
  stats := by
    unfold Piece.new
    cases hs : card.stats with
    | none => exact Stats.fits_still fits32_zero
    | some s => exact hcard.stats s hs
  passives _ ha := nomatch ha
  triggers _ ht := nomatch ht
  activations _ ha := nomatch ha
  statuses _ hs := nomatch hs
  adjustments _ ha := nomatch ha
  movesMade := fits32_zero

/-! What abilities hold on it. -/

theorem setGrants (h : p.Abides K) (source : AbilityId) (disabled : Bool) :
    (p.setGrants source disabled).Abides K := by
  refine { h with passives := ?_, triggers := ?_ }
  · refine List.forall_mem_map.2 fun a ha => ?_
    split
    · exact { h.passives a ha with }
    · exact h.passives a ha
  · refine List.forall_mem_map.2 fun t ht => ?_
    split
    · exact { h.triggers t ht with }
    · exact h.triggers t ht

theorem countDown (h : p.Abides K) : p.countDown.Abides K := by
  refine { h with passives := fun b hb => ?_, triggers := fun u hu => ?_ }
  · obtain ⟨a, ha, htick⟩ := List.mem_filterMap.1 hb
    exact (h.passives a ha).ticked htick
  · obtain ⟨t, ht, htick⟩ := List.mem_filterMap.1 hu
    exact (h.triggers t ht).ticked htick

theorem dropDisabled (h : p.Abides K) : p.dropDisabled.Abides K :=
  { h with
    passives := fun a ha => h.passives a (List.mem_filter.1 ha).1
    triggers := fun t ht => h.triggers t (List.mem_filter.1 ht).1 }

theorem adjust (h : p.Abides K) {ability : AbilityId} (hability : FitsId ability)
    {adjustment : Adjustment} (hadjustment : adjustment.Fits) (scope : Scope) :
    (p.adjust ability scope adjustment).Abides K := by
  unfold Piece.adjust
  split
  · exact h
  · refine { h with adjustments := List.forall_mem_append.2 ⟨h.adjustments, ?_⟩ }
    exact List.forall_mem_map.2 fun _ _ => ⟨hability, hadjustment⟩

theorem addStatus (h : p.Abides K) {status : Status} (hstatus : status.Fits) :
    (p.addStatus status).Abides K := by
  unfold Piece.addStatus
  split
  · exact h
  · exact { h with statuses :=
      List.forall_mem_append.2 ⟨h.statuses, List.forall_mem_singleton.2 hstatus⟩ }

theorem addActivation (h : p.Abides K) {activation : Activation}
    (hactivation : activation.Abides K) : (p.addActivation activation).Abides K := by
  unfold Piece.addActivation
  split
  · exact h
  · exact { h with activations :=
      List.forall_mem_append.2 ⟨h.activations, List.forall_mem_singleton.2 hactivation⟩ }

theorem dropStatuses (h : p.Abides K) (ability : AbilityId) : (p.dropStatuses ability).Abides K :=
  { h with statuses := fun s hs => h.statuses s (List.mem_filter.1 hs).1 }

theorem dropActivations (h : p.Abides K) (ability : AbilityId) :
    (p.dropActivations ability).Abides K :=
  { h with activations := fun a ha => h.activations a (List.mem_filter.1 ha).1 }

theorem dropAdjustments (h : p.Abides K) (ability : AbilityId) :
    (p.dropAdjustments ability).Abides K :=
  { h with adjustments := fun a ha => h.adjustments a (List.mem_filter.1 ha).1 }

theorem setApplied (h : p.Abides K) (id : AbilityId) {applied : Option Collection}
    (happlied : ∀ c ∈ applied, c.Abides K) :
    (p.changePassive id (·.setApplied applied)).Abides K := by
  have hchanged : ∀ as : List Passive, (∀ a ∈ as, a.Abides K) →
      ∀ a ∈ Piece.changeFirst id (·.setApplied applied) as, a.Abides K := by
    intro as has
    induction as with
    | nil => exact has
    | cons a as ih =>
      obtain ⟨hfirst, hrest⟩ := List.forall_mem_cons.1 has
      unfold Piece.changeFirst
      split
      · exact List.forall_mem_cons.2 ⟨{ hfirst with applied := happlied }, hrest⟩
      · exact List.forall_mem_cons.2 ⟨hfirst, ih hrest⟩
  exact { h with passives := hchanged p.passives h.passives }

theorem addPassive (h : p.Abides K) {a : Passive} (ha : a.Abides K) : (p.addPassive a).Abides K :=
  { h with passives := List.forall_mem_append.2 ⟨h.passives, List.forall_mem_singleton.2 ha⟩ }

theorem addTrigger (h : p.Abides K) {t : Trigger} (ht : t.Abides K) : (p.addTrigger t).Abides K :=
  { h with triggers := List.forall_mem_append.2 ⟨h.triggers, List.forall_mem_singleton.2 ht⟩ }

/-! What happens to it. -/

theorem endTurnOf (h : p.Abides K) (player : Color) : (p.endTurnOf player).Abides K := by
  unfold Piece.endTurnOf
  split
  · exact { h with }
  · exact h

theorem beginTurnOf (h : p.Abides K) (player : Color) : (p.beginTurnOf player).Abides K := by
  unfold Piece.beginTurnOf
  split
  · exact { h with movesMade := fits32_zero }
  · exact h

theorem mayMoveAgain (h : p.Abides K) : p.mayMoveAgain.Abides K :=
  { h with movesMade := fits32_zero }

theorem mayMoveAndAttackAgain (h : p.Abides K) : p.mayMoveAndAttackAgain.Abides K :=
  { h with movesMade := fits32_zero }

theorem struck (h : p.Abides K) : p.struck.Abides K := { h with }

theorem spent (h : p.Abides K) : p.spent.Abides K := { h with }

theorem joining (h : p.Abides K) (owner : Color) : (p.joining owner).Abides K := { h with }

theorem condemn (h : p.Abides K) : p.condemn.Abides K := { h with }

theorem fall (h : p.Abides K) : p.fall.Abides K := { h with }

theorem arrive (h : p.Abides K) : p.arrive.Abides K := { h with }

theorem setStats (h : p.Abides K) {stats : Stats} (hstats : stats.Fits) :
    (p.setStats stats).Abides K := { h with stats := hstats }

theorem setHealth (h : p.Abides K) {health : Int} (hhealth : Fits32 health) :
    (p.setHealth health).Abides K := { h with stats := { h.stats with health := hhealth } }

theorem swap (h : p.Abides K) (first second : Attribute) : (p.swap first second).Abides K := by
  unfold Piece.swap
  split
  · rename_i a b ha hb
    exact { h with stats := (h.stats.set first (h.stats.get hb)).set second (h.stats.get ha) }
  · exact h

theorem walk (h : p.Abides K) {made : Int} (hmade : Fits32 made) {goal : Hex} (hgoal : goal.Fits) :
    (p.walk made goal).Abides K := { h with movesMade := hmade, hex := hgoal }

theorem moveTo (h : p.Abides K) {goal : Hex} (hgoal : goal.Fits) : (p.moveTo goal).Abides K :=
  { h with hex := hgoal }

end Piece.Abides

/-! ### Boards -/

namespace Board.Abides
variable {b : Board}

theorem get? (h : b.Abides K) {id : PieceId} {p : Piece} (hp : b.get? id = some p) :
    FitsId id ∧ p.Abides K := h.entries (id, p) (mem_of_get? hp)

theorem pieces (h : b.Abides K) : ∀ p ∈ b.pieces, p.Abides K :=
  List.forall_mem_map.2 fun e he => (h.entries e he).2

theorem contains (h : b.Abides K) {id : PieceId} (hid : b.contains id = true) : FitsId id := by
  obtain ⟨p, hp⟩ := Option.isSome_iff_exists.1 hid
  exact (h.get? hp).1

theorem pieceAt? (h : b.Abides K) {hex : Hex} {p : Piece} (hp : b.pieceAt? hex = some p) :
    p.Abides K := h.pieces p (List.mem_of_find?_eq_some hp)

theorem modify (h : b.Abides K) (id : PieceId) {f : Piece → Piece}
    (hf : ∀ p : Piece, p.Abides K → (f p).Abides K) : (b.modify id f).Abides K where
  ascending := by rw [ids_modify]; exact h.ascending
  entries := by
    refine List.forall_mem_map.2 fun e he => ?_
    split
    · exact ⟨(h.entries e he).1, hf _ (h.entries e he).2⟩
    · exact h.entries e he

theorem mapPieces (h : b.Abides K) {f : Piece → Piece}
    (hf : ∀ p : Piece, p.Abides K → (f p).Abides K) : (b.mapPieces f).Abides K where
  ascending := by rw [ids_mapPieces]; exact h.ascending
  entries := List.forall_mem_map.2 fun e he => ⟨(h.entries e he).1, hf _ (h.entries e he).2⟩

theorem erase (h : b.Abides K) (id : PieceId) : (b.erase id).Abides K where
  ascending := h.ascending.sublist (List.filter_sublist.map _)
  entries e he := h.entries e (List.mem_filter.1 he).1

theorem enter (h : b.Abides K) {p : Piece} (hp : p.Abides K) : (b.enter p).Abides K := by
  unfold Board.enter place?
  split
  · exact h
  · refine ⟨List.pairwise_map.2 (pairwise_insertEntry (List.pairwise_map.1 h.ascending)),
      fun e he => ?_⟩
    obtain rfl | he := mem_insertEntry he
    · exact ⟨hp.id, hp⟩
    · exact h.entries e he

end Board.Abides

/-! ### Seats -/

theorem Selection.fits_none : Selection.none.Fits :=
  ⟨fun _ h => (nomatch h), fun _ h => nomatch h⟩

theorem Selection.fits_answering {chosen : List Choice} (h : ∀ c ∈ chosen, c.Fits) :
    (answering chosen).Fits := { fits_none with chosen := h }

namespace Seat.Abides
variable {s : Seat}

theorem cardInHand? (h : s.Abides K) {id : CardId} {c : Card} (hc : s.cardInHand? id = some c) :
    c.Abides K := h.hand c (List.mem_of_find?_eq_some hc)

theorem setAvailable (h : s.Abides K) {available : Int} (havailable : Fits32 available) :
    (s.setAvailable available).Abides K :=
  { h with energy := ⟨havailable, h.energy.total⟩ }

theorem changeFirst {f : Card → Card} (hf : ∀ c : Card, c.Abides K → (f c).Abides K) (id : CardId)
    {cards : List Card} (h : ∀ c ∈ cards, c.Abides K) :
    ∀ c ∈ Seat.changeFirst id f cards, c.Abides K := by
  induction cards with
  | nil => exact h
  | cons c cs ih =>
    obtain ⟨hfirst, hrest⟩ := List.forall_mem_cons.1 h
    unfold Seat.changeFirst
    split
    · exact List.forall_mem_cons.2 ⟨hf c hfirst, hrest⟩
    · exact List.forall_mem_cons.2 ⟨hfirst, ih hrest⟩

theorem tailDeck (h : s.Abides K) : { s with deck := s.deck.tail }.Abides K :=
  { h with deck := fun c hc => h.deck c (List.mem_of_mem_tail hc) }

end Seat.Abides

/-! ### Matches -/

namespace Match.Abides
variable {m : Match}

theorem changeSeat (h : m.Abides K) (c : Color) {f : Seat → Seat}
    (hf : (m.seat c).Abides K → (f (m.seat c)).Abides K) : (m.changeSeat c f).Abides K := by
  refine { h with seats := fun d => ?_ }
  by_cases hd : c = d
  · subst hd
    have hseat : (m.changeSeat c f).seat c = f (m.seat c) := PerSide.get_modify_self m.seats c f
    exact hseat ▸ hf (h.seats c)
  · have hseat : (m.changeSeat c f).seat d = m.seat d := PerSide.get_modify_of_ne m.seats hd f
    exact hseat ▸ h.seats d

theorem changeBoard (h : m.Abides K) {f : Board → Board} (hf : (f m.board).Abides K) :
    (m.changeBoard f).Abides K := { h with board := hf }

theorem changePiece (h : m.Abides K) (id : PieceId) {f : Piece → Piece}
    (hf : ∀ p : Piece, p.Abides K → (f p).Abides K) : (m.changePiece id f).Abides K :=
  h.changeBoard (h.board.modify id hf)

theorem mapPieces (h : m.Abides K) {f : Piece → Piece}
    (hf : ∀ p : Piece, p.Abides K → (f p).Abides K) :
    (m.changeBoard (·.mapPieces f)).Abides K := h.changeBoard (h.board.mapPieces hf)

theorem changeCard (h : m.Abides K) (c : Color) (id : CardId) {f : Card → Card}
    (hf : ∀ c : Card, c.Abides K → (f c).Abides K) : (m.changeCard c id f).Abides K :=
  h.changeSeat c fun hs => { hs with hand := Seat.Abides.changeFirst hf id hs.hand }

theorem setSelection (h : m.Abides K) (c : Color) {selection : Selection} (hs : selection.Fits) :
    (m.setSelection c selection).Abides K :=
  h.changeSeat c fun hseat => { hseat with selection := hs }

theorem setStatus (h : m.Abides K) (c : Color) (text : String) : (m.setStatus c text).Abides K :=
  h.changeSeat c fun hseat => { hseat with }

theorem addToHand (h : m.Abides K) (c : Color) {card : Card} (hcard : card.Abides K) :
    (m.addToHand c card).Abides K :=
  h.changeSeat c fun hs => { hs with
    hand := List.forall_mem_append.2 ⟨hs.hand, List.forall_mem_singleton.2 hcard⟩ }

theorem discard (h : m.Abides K) (c : Color) {card : Card} (hcard : card.Abides K) :
    (m.discard c card).Abides K :=
  h.changeSeat c fun hs => { hs with
    discard := List.forall_mem_append.2 ⟨hs.discard, List.forall_mem_singleton.2 hcard⟩ }

theorem dropFromHand (h : m.Abides K) (c : Color) (id : CardId) : (m.dropFromHand c id).Abides K :=
  h.changeSeat c fun hs => { hs with
    hand := fun card hcard => hs.hand card (List.mem_of_mem_eraseP hcard) }

theorem playSound (h : m.Abides K) (sound : String) : (m.playSound sound).Abides K := { h with }

theorem animate (h : m.Abides K) {a : Animation} (ha : a.Fits) : (m.animate a).Abides K :=
  { h with animations := List.forall_mem_append.2 ⟨h.animations, List.forall_mem_singleton.2 ha⟩ }

theorem addLog (h : m.Abides K) (player : Option Color) (text : String) {cards : List Card}
    (hcards : ∀ c ∈ cards, c.Abides K) : (m.addLog player text cards).Abides K :=
  have htime : Width.least64 ≤ 0 ∧ (0 : Int) ≤ Width.most64 := by decide
  { h with
    log := List.forall_mem_append.2 ⟨h.log, List.forall_mem_singleton.2 ⟨htime, hcards⟩⟩ }

theorem report (h : m.Abides K) (player : Option Color) (text : String) :
    (m.addLog player text []).Abides K := h.addLog player text fun _ hc => nomatch hc

theorem chime (h : m.Abides K) (player : Color) : (m.chime player).Abides K := by
  unfold Match.chime
  split
  · exact h.playSound _
  · exact h

theorem refuse (h : m.Abides K) {r : Rejection} (hr : r.Fits) :
    { m with refusal := some r }.Abides K :=
  { h with refusal := fun _ hsome => Option.some.inj hsome ▸ hr }

theorem checkVictory (h : m.Abides K) : m.checkVictory.Abides K := by
  unfold Match.checkVictory
  split
  · exact h
  · split
    · rename_i winner _
      have hwon : { m with winner := some winner }.Abides K := { h with }
      unfold declareWinner
      dsimp only
      split
      · exact (hwon.playSound _).report _ _
      · exact (hwon.playSound _).report _ _
    · exact h

/-! Hands and decks. -/

theorem cardsInHands (h : m.Abides K) : ∀ c ∈ m.cardsInHands, c.Abides K := by
  intro c hc
  obtain ⟨owner, _, hheld⟩ := List.mem_flatMap.1 hc
  exact (h.seats owner).hand c hheld

theorem takeTop (h : m.Abides K) (c : Color) : (m.takeTop c).Abides K := by
  have htaken := h.changeSeat c (f := fun s => { s with deck := s.deck.tail }) (·.tailDeck)
  unfold Match.takeTop
  dsimp only
  split
  · exact htaken
  · exact htaken.changeSeat c.opponent (·.tailDeck)

theorem topCard? (h : m.Abides K) {c : Color} {card : Card} (htop : m.topCard? c = some card) :
    card.Abides K := (h.seats c).deck card (List.mem_of_mem_head? htop)

theorem drawTop (h : m.Abides K) (c : Color) : (m.drawTop c).Abides K := by
  unfold Match.drawTop
  split
  · exact h
  · rename_i card htop
    exact (h.takeTop c).addToHand c (h.topCard? htop)

theorem burnTop (h : m.Abides K) (c : Color) : (m.burnTop c).Abides K := by
  unfold Match.burnTop
  split
  · exact h
  · rename_i card htop
    exact (h.takeTop c).discard c (h.topCard? htop)

theorem drawTimes (h : m.Abides K) (player : Color) (count : Nat) :
    (Play.drawTimes player count m).Abides K := by
  induction count generalizing m with
  | zero => exact h
  | succ count ih =>
    unfold Play.drawTimes
    split
    · exact h
    · exact ih (h.drawTop player)

theorem burnTimes (h : m.Abides K) (player : Color) (count : Nat) :
    (Play.burnTimes player count m).Abides K := by
  induction count generalizing m with
  | zero => exact h
  | succ count ih =>
    unfold Play.burnTimes
    split
    · exact h
    · exact ih ((h.burnTop player).report _ _)

theorem deal (h : m.Abides K) (player : Color) (count : Nat) :
    (Play.deal player count m).Abides K := (h.drawTimes player _).burnTimes player _

theorem giveBack (h : m.Abides K) (owner : Color) {card : Card} (hcard : card.Abides K) :
    (Play.giveBack owner card m).Abides K := by
  unfold Play.giveBack
  split
  · exact (h.discard owner hcard).report _ _
  · exact h.addToHand owner hcard

theorem discardFromHand (h : m.Abides K) (id : CardId) :
    (Resolving.discardFromHand id m).Abides K := by
  unfold Resolving.discardFromHand
  split
  · exact h
  · rename_i holder _
    split
    · exact h
    · rename_i c hc
      exact (h.dropFromHand holder id).discard holder ((h.seats holder).cardInHand? hc).reset

/-! Abilities. -/

theorem adjustCostOf (h : m.Abides K) {ability : AbilityId} (hability : FitsId ability)
    {adjustment : Adjustment} (hadjustment : adjustment.Fits) (id : CardId) :
    (Resolving.adjustCostOf ability adjustment id m).Abides K := by
  unfold Resolving.adjustCostOf
  split
  · exact h.changeCard _ id fun _ hc => hc.adjustCost hability hadjustment
  · exact h

theorem foldl {α : Type} {f : Match → α → Match} {as : List α}
    (hf : ∀ a ∈ as, ∀ m : Match, m.Abides K → (f m a).Abides K) (h : m.Abides K) :
    (as.foldl f m).Abides K := by
  induction as generalizing m with
  | nil => exact h
  | cons a as ih =>
    obtain ⟨hfirst, hrest⟩ := List.forall_mem_cons.1 hf
    exact ih hrest (hfirst m h)

theorem withdraw (h : m.Abides K) (a : Passive) : (m.withdraw a).Abides K := by
  unfold Match.withdraw
  split
  · refine foldl (fun c _ m hm => ?_) (h.mapPieces fun _ hp => hp.dropAdjustments a.id)
    exact hm.changeSeat c fun hs => { hs with
      hand := List.forall_mem_map.2 fun card hcard => (hs.hand card hcard).dropCostOf a.id }
  · exact h.mapPieces fun _ hp => hp.dropStatuses a.id
  · exact h.mapPieces fun _ hp => hp.setGrants a.id true
  · exact h.mapPieces fun _ hp => hp.dropActivations a.id

theorem withdrawApplied (h : m.Abides K) (a : Passive) : (m.withdrawApplied a).Abides K := by
  unfold Match.withdrawApplied
  split
  · exact h.withdraw a
  · exact h

theorem withdrawAll (h : m.Abides K) (as : List Passive) : (m.withdrawAll as).Abides K :=
  foldl (fun a _ _ hm => hm.withdrawApplied a) h

theorem tickDurations (h : m.Abides K) : m.tickDurations.Abides K :=
  (h.mapPieces fun _ hp => hp.countDown).withdrawAll _

theorem dropDisabled (h : m.Abides K) : m.dropDisabled.Abides K :=
  (h.mapPieces fun _ hp => hp.dropDisabled).withdrawAll _

/-! Objects. -/

theorem takeControl (h : m.Abides K) (owner : Color) (id : PieceId) :
    (Resolving.takeControl owner id m).Abides K := by
  unfold Resolving.takeControl
  split
  · exact h
  · rename_i p hp
    split
    · exact h
    · refine (h.changePiece id fun _ hq => hq.joining owner).addLog _ _ ?_
      exact List.forall_mem_singleton.2 (h.board.get? hp).2.card

theorem moveTo (h : m.Abides K) (id : PieceId) {hex : Hex} (hhex : hex.Fits) :
    (Resolving.moveTo id hex m).Abides K := by
  unfold Resolving.moveTo
  split
  · exact h.changePiece id fun _ hp => hp.moveTo hhex
  · exact h

theorem changePieces (h : m.Abides K) (ids : List PieceId) {f : Piece → Piece}
    (hf : ∀ p : Piece, p.Abides K → (f p).Abides K) :
    (ids.foldl (fun m id => m.changePiece id f) m).Abides K :=
  foldl (fun id _ _ hm => hm.changePiece id hf) h

end Match.Abides

end HexDuel
