import HexDuel.Proofs.Holdings
import HexDuel.Proofs.Turns

/-!
What the players have stays within its limits. A hand grows only as long as it takes another card,
which it does up to the limit of the match, or one more while an event is resolved. Nobody comes to
have more energy in a turn than the match allows, and nobody comes to owe any.
-/

set_option autoImplicit false

namespace HexDuel

/-! ### Hands -/

namespace Match
variable {m m' m'' : Match} {n : Nat}

/-- How many cards a hand takes at the moment. -/
def handLimit (m : Match) : Nat := m.limits.maxHandSize + if m.eventResolving then 1 else 0

/-- A hand has grown only up to that many cards. -/
def Fills (m : Match) (n : Nat) (m' : Match) : Prop :=
  ∀ c, (m'.seat c).hand.length ≤ max (m.seat c).hand.length n

namespace Fills

theorem of_le (h : ∀ c, (m'.seat c).hand.length ≤ (m.seat c).hand.length) : m.Fills n m' :=
  fun c => Nat.le_trans (h c) (Nat.le_max_left _ _)

theorem refl (m : Match) : m.Fills n m := of_le fun _ => Nat.le_refl _

theorem trans (h : m.Fills n m') (h' : m'.Fills n m'') : m.Fills n m'' := by
  intro c
  have hfirst := h c
  have hlast := h' c
  omega

theorem mono {k : Nat} (h : m.Fills n m') (hle : n ≤ k) : m.Fills k m' := by
  intro c
  have hfills := h c
  omega

theorem of_seats (h : ∀ c, (m.seat c).Rests (m'.seat c)) : m.Fills n m' := by
  refine of_le fun c => Nat.le_of_eq ?_
  simpa using congrArg List.length (h c).hand

theorem of_rests (h : m.Rests m') : m.Fills n m' := of_seats h.seat

theorem changeSeat (c : Color) {f : Seat → Seat} (hf : ∀ s : Seat, (f s).hand.length ≤ s.hand.length)
    (m : Match) : m.Fills n (m.changeSeat c f) := by
  refine of_le fun d => ?_
  cases c <;> cases d <;> first | exact hf _ | exact Nat.le_refl _

theorem discard (c : Color) (card : Card) (m : Match) : m.Fills n (m.discard c card) :=
  changeSeat c (f := fun s => { s with discard := s.discard ++ [card] }) (fun _ => Nat.le_refl _) m

theorem dropFromHand (c : Color) (id : CardId) (m : Match) : m.Fills n (m.dropFromHand c id) :=
  changeSeat c (f := fun s => { s with hand := s.hand.eraseP (·.id == id) })
    (fun _ => List.length_eraseP_le) m

end Fills

theorem hand_takeTop (m : Match) (c d : Color) :
    ((m.takeTop c).seat d).hand = (m.seat d).hand := by
  unfold takeTop
  dsimp only
  split <;> cases c <;> cases d <;> rfl

theorem hand_addToHand (m : Match) (c d : Color) (card : Card) :
    ((m.addToHand c card).seat d).hand.length =
      (m.seat d).hand.length + if d = c then 1 else 0 := by
  cases c <;> cases d <;> simp [addToHand, changeSeat, PerSide.modify, seat, PerSide.get]

theorem hand_drawTop (m : Match) (c d : Color) :
    ((m.drawTop c).seat d).hand.length ≤ (m.seat d).hand.length + if d = c then 1 else 0 := by
  unfold drawTop
  split
  · exact Nat.le_add_right _ _
  · exact Nat.le_of_eq (by rw [hand_addToHand, hand_takeTop])

theorem hand_drawTimes (c d : Color) (count : Nat) (m : Match) :
    ((Play.drawTimes c count m).seat d).hand.length ≤
      (m.seat d).hand.length + if d = c then count else 0 := by
  induction count generalizing m with
  | zero => exact Nat.le_add_right _ _
  | succ count ih =>
    unfold Play.drawTimes
    split
    · exact Nat.le_add_right _ _
    · refine Nat.le_trans (ih (m.drawTop c)) ?_
      have hfirst := m.hand_drawTop c d
      split
      · rw [if_pos ‹d = c›] at hfirst
        omega
      · rw [if_neg ‹¬ d = c›] at hfirst
        exact hfirst

theorem hand_burnTop (m : Match) (c d : Color) : ((m.burnTop c).seat d).hand = (m.seat d).hand := by
  unfold burnTop
  split
  · rfl
  · rw [← m.hand_takeTop c d]
    cases c <;> cases d <;> rfl

theorem hand_burnTimes (c d : Color) (count : Nat) (m : Match) :
    ((Play.burnTimes c count m).seat d).hand = (m.seat d).hand := by
  induction count generalizing m with
  | zero => rfl
  | succ count ih =>
    unfold Play.burnTimes
    split
    · rfl
    · exact (ih _).trans (m.hand_burnTop c d)

namespace Fills

/-- Cards are dealt up to the limit of the hand, whosever hand it is. -/
theorem deal (c : Color) (count : Nat) (m : Match) : m.Fills m.handLimit (Play.deal c count m) := by
  intro d
  have hdeal : Play.deal c count m = Play.burnTimes c (count - min count (m.handLimit -
      (m.seat c).hand.length)) (Play.drawTimes c (min count (m.handLimit -
        (m.seat c).hand.length)) m) := rfl
  rw [hdeal, hand_burnTimes]
  have hdrawn := hand_drawTimes c d (min count (m.handLimit - (m.seat c).hand.length)) m
  split at hdrawn
  · subst d
    omega
  · omega

/-- A card comes back to the hand only up to the limit of the match, event or not. -/
theorem giveBack (c : Color) (card : Card) (m : Match) :
    m.Fills m.limits.maxHandSize (Play.giveBack c card m) := by
  unfold Play.giveBack
  split
  · exact (discard c card m).trans (.of_rests (.addLog _ _ _ _))
  · intro d
    rw [hand_addToHand]
    split
    · subst d
      omega
    · omega

end Fills

theorem maxHandSize_le_handLimit (m : Match) : m.limits.maxHandSize ≤ m.handLimit :=
  Nat.le_add_right _ _

theorem handLimit_le (m : Match) : m.handLimit ≤ m.limits.maxHandSize + 1 := by
  unfold handLimit
  split <;> omega

end Match

/-! ### Energy -/

attribute [ext] Energy

namespace Match
variable {m m' m'' : Match} {n : Nat}

/-- Nobody has more energy in a turn than the match allows, and nobody owes any. -/
structure Solvent (m : Match) : Prop where
  positive : 0 < m.limits.maxEnergy
  total : ∀ c, 0 ≤ (m.seat c).energy.total ∧ (m.seat c).energy.total ≤ m.limits.maxEnergy
  available : ∀ c, 0 ≤ (m.seat c).energy.available

theorem Solvent.of_energy (hm : m.Solvent) (hlimits : m'.limits = m.limits)
    (henergy : ∀ c, (m'.seat c).energy = (m.seat c).energy) : m'.Solvent where
  positive := hlimits ▸ hm.positive
  total c := by
    rw [henergy, hlimits]
    exact hm.total c
  available c := by
    rw [henergy]
    exact hm.available c

theorem Solvent.changeSeat (hm : m.Solvent) (c : Color) {f : Seat → Seat}
    (htotal : 0 ≤ (f (m.seat c)).energy.total ∧
      (f (m.seat c)).energy.total ≤ m.limits.maxEnergy)
    (havailable : 0 ≤ (f (m.seat c)).energy.available) : (m.changeSeat c f).Solvent where
  positive := hm.positive
  total d := by
    have hother := hm.total d
    cases c <;> cases d <;> first | exact htotal | exact hother
  available d := by
    have hother := hm.available d
    cases c <;> cases d <;> first | exact havailable | exact hother

theorem energy_congr (hclock : m'.clock = m.clock) (hmeans : m'.means = m.means) (c : Color) :
    (m'.seat c).energy = (m.seat c).energy := by
  have htotal : (m'.seat c).energy.total = (m.seat c).energy.total := by
    rw [← totals_clock, hclock, totals_clock]
  have havailable : (m'.seat c).energy.available = (m.seat c).energy.available := by
    rw [← available_means, hmeans, available_means]
  exact Energy.ext havailable htotal

/-! ### Within both limits -/

/-- A hand has grown only up to that many cards, and nobody has come to owe energy, as long as the
limits are the same and an event keeps its place in the hand or does not. -/
structure Within (m : Match) (n : Nat) (m' : Match) : Prop where
  limits : m'.limits = m.limits
  slot : m'.eventResolving = m.eventResolving
  hands : m.Fills n m'
  solvent : m.Solvent → m'.Solvent

namespace Within

theorem of_means (hclock : m'.clock = m.clock) (hmeans : m'.means = m.means)
    (hands : m.Fills n m') : m.Within n m' where
  limits := congrArg Clock.limits hclock
  slot := congrArg Means.slot hmeans
  hands := hands
  solvent hm := hm.of_energy (congrArg Clock.limits hclock) (energy_congr hclock hmeans)

theorem of_bearing (h : m'.bearing = m.bearing) (hands : m.Fills n m') : m.Within n m' :=
  of_means (clock_of_bearing h) (means_of_bearing h) hands

theorem refl (m : Match) : m.Within n m := of_bearing rfl (.refl m)

theorem trans (h : m.Within n m') (h' : m'.Within n m'') : m.Within n m'' where
  limits := h'.limits.trans h.limits
  slot := h'.slot.trans h.slot
  hands := h.hands.trans h'.hands
  solvent hm := h'.solvent (h.solvent hm)

theorem mono {k : Nat} (h : m.Within n m') (hle : n ≤ k) : m.Within k m' :=
  ⟨h.limits, h.slot, h.hands.mono hle, h.solvent⟩

theorem handLimit (h : m.Within n m') : m'.handLimit = m.handLimit := by
  unfold Match.handLimit
  rw [h.limits, h.slot]

/-- The limit of the hands is the same throughout. -/
theorem next (h : m.Within m.handLimit m') (h' : m'.Within m'.handLimit m'') :
    m.Within m.handLimit m'' := h.trans (h.handLimit ▸ h')

end Within
end Match

/-! ### Conduct -/

variable {s s' : Stage}

theorem Stage.Frugal.within {n : Nat} (h : s.Frugal s') (hands : s.game.Fills n s'.game) :
    s.game.Within n s'.game := .of_means h.clock h.means hands

/-- No card is dealt past the limit. -/
theorem Trade.fills (h : Trade s s') : s.game.Fills s.game.handLimit s'.game := by
  cases h with
  | @play player id => exact .dropFromHand player id s.game
  | @spend player id card =>
    exact (Match.Fills.dropFromHand player id s.game).trans (.discard player card.reset _)
  | deal c count => exact .deal c count s.game

theorem Errand.fills (h : Errand s s') : s.game.Fills s.game.handLimit s'.game := by
  obtain hrests | htrade := h.rests
  · exact .of_rests hrests
  · exact htrade.fills

theorem TakenOff.fills {id : PieceId} {p : Piece} {n : Nat} (h : TakenOff s id p s') :
    s.game.Fills n s'.game := .of_seats fun c => (rests_of_tended h.removed.tended).seat c

theorem Buried.within {id : PieceId} {n : Nat} (h : Buried id s s') : s.game.Within n s'.game := by
  refine h.frugal.within ?_
  cases h with
  | gone => exact .refl _
  | @discard p mid h =>
    exact h.fills.trans ((Match.Fills.of_rests (.checkVictory _)).trans (.discard _ _ _))

theorem Stage.Dooms.within {id : PieceId} {start : Stage} {n : Nat} (h : s.Dooms id start)
    (card : Card) : s.game.Within n (start.topple id card).game := by
  refine .of_bearing ?_ (.of_rests (h.rests card))
  obtain rfl | rfl := h <;> rfl

theorem Stage.within_retire {n : Nat} (s : Stage) : s.game.Within n s.retire.game := by
  have hreleased : s.game.Rests ((s.game.setSelection s.game.turn .none).setStatus s.game.turn "") :=
    (Match.Rests.setSelection _ _ _).trans (.setStatus _ _ _)
  have hended := hreleased.trans (.mapPieces (Piece.remains_endTurnOf s.game.turn) _)
  exact .of_bearing s.retire_bearing
    (.of_rests ((hended.trans (.mapPieces Piece.remains_countDown _)).trans (.withdrawAll _ _)))

theorem Stage.within_handOver {n : Nat} (s : Stage) (c : Color) :
    s.game.Within n (s.handOver c).game := by
  have hchecked : s.game.Within n s.game.checkVictory :=
    (Stage.Frugal.checkVictory s).within (.of_rests (.checkVictory _))
  exact ⟨hchecked.limits, hchecked.slot, hchecked.hands, fun hm =>
    (hchecked.solvent hm).of_energy rfl fun _ => rfl⟩

theorem Stage.within_beginTurn {n : Nat} {s : Stage} {total : Int}
    (htotal : s.game.Solvent → 0 ≤ total ∧ total ≤ s.game.limits.maxEnergy) :
    s.game.Within n (s.beginTurn total).game := by
  have hands : s.game.Fills n (s.game.changeSeat s.game.turn (·.setEnergy ⟨total, total⟩)) :=
    .changeSeat s.game.turn (f := (·.setEnergy ⟨total, total⟩)) (fun _ => Nat.le_refl _) s.game
  refine ⟨rfl, rfl, fun c => hands c, fun hm => ?_⟩
  have hbegun : (s.game.changeSeat s.game.turn (·.setEnergy ⟨total, total⟩)).Solvent :=
    hm.changeSeat s.game.turn (htotal hm) (htotal hm).1
  exact hbegun.of_energy rfl fun _ => rfl

/-- A player has one more than in the turn before, as far as the match allows. -/
theorem Stage.Begins.within {n : Nat} (h : s.Begins s') : s.game.Within n s'.game := by
  cases h with
  | closed => exact .refl _
  | begun =>
    refine s.within_beginTurn fun hm => ?_
    have hpositive := hm.positive
    have hleast := (hm.total s.game.turn).1
    omega

/-- Whatever is done stays within the limits. -/
theorem Conduct.within (h : Conduct s s') : s.game.Within s.game.handLimit s'.game := by
  induction h with
  | refl => exact .refl _
  | trans _ _ ih ih' => exact ih.next ih'
  | errand h hfrugal => exact hfrugal.within h.fills
  | delay h => exact h.frugal.within h.errand.fills
  | @fund c available s h =>
    have hands : s.game.Fills s.game.handLimit (s.game.changeSeat c (·.setAvailable available)) :=
      .changeSeat c (f := (·.setAvailable available)) (fun _ => Nat.le_refl _) s.game
    exact ⟨rfl, rfl, hands, fun hm => hm.changeSeat c (hm.total c) h⟩
  | reapply h =>
    have htended := Play.goes_reapply _ _ _ h
    exact (frugal_of_tended htended).within (.of_rests (rests_of_tended htended))
  | install id sentence duration h =>
    have htended := Play.goes_grant _ _ _ _ _ _ _ h
    exact (frugal_of_tended htended).within (.of_rests (rests_of_tended htended))
  | condemn id => exact .of_bearing rfl (.refl _)
  | @destroy _ p _ _ _ _ _ _ hdooms _ hburied ih =>
    exact ((hdooms.within p.card).next ih).next hburied.within
  | @giveBack id p s mid h =>
    refine (h.frugal.trans (mid.frugal_returned p.owner p.card.reset)).within ?_
    have hfits := Match.Fills.giveBack p.owner p.card.reset mid.game.checkVictory
    have hlimits : mid.game.checkVictory.limits = s.game.limits :=
      congrArg Clock.limits (mid.game.clock_checkVictory.trans h.frugal.clock)
    rw [hlimits] at hfits
    exact h.fills.trans ((Match.Fills.of_rests (.checkVictory _)).trans
      (hfits.mono s.game.maxHandSize_le_handLimit))
  | @spawn _ _ _ _ _ _ card hex owner s found s' _ hresolve _ hinquired _ _ =>
    have hfound := (Resolving.inquired_of_resolve hresolve).trans hinquired
    have hrests := rests_of_tended (Relation.ReflTransGen.mono (fun _ _ => .inquiry) _ _ hfound)
    exact ((frugal_of_inquired hfound).trans (.place card hex owner false)).within
      (.of_seats hrests.seat)
  | @pass s ended s' _ _ hbegins ih =>
    exact (s.within_retire.next ih).next ((ended.within_handOver _).next hbegins.within)

/-! ### Commands -/

namespace Stage.Shelves
variable {player : Color} {id : CardId}

theorem hand (h : s.Shelves player id s') (c : Color) :
    (s'.game.seat c).hand = ((s.game.dropFromHand player id).seat c).hand := by
  cases h with
  | spent => cases player <;> cases c <;> rfl
  | gone hnone =>
    have hkept : (s.game.seat player).hand.eraseP (·.id == id) = (s.game.seat player).hand :=
      List.eraseP_of_forall_not fun card hcard => by simpa using List.find?_eq_none.1 hnone card hcard
    cases player <;> cases c <;> first | rfl | exact hkept.symm

theorem within {n : Nat} (h : s.Shelves player id s') : s.game.Within n s'.game := by
  cases h with
  | gone => exact .refl _
  | spent =>
    exact (s.frugal_spent player id _).within ((Match.Fills.dropFromHand player id s.game).trans
      (.discard player _ _))

end Stage.Shelves

/-- A card that comes from the hand to the board leaves room in the hand, and all else is conduct. -/
theorem Stage.Lands.within_played {paid placed settled : Stage} (hlands : paid.Lands placed)
    (hpaid : Conduct s paid) (hsettled : Conduct placed settled)
    (h : Conduct (settled.arrived placed) s') : s.game.Within s.game.handLimit s'.game := by
  have hplaced : paid.game.Within paid.game.handLimit placed.game :=
    hlands.frugal.within hlands.errand.fills
  have harrived := (settled.conduct_arrived placed).within
  exact (((hpaid.within.next hplaced).next hsettled.within).next harrived).next h.within

/-- While an event is resolved every hand takes one card more. -/
theorem Venture.within (h : Venture s s') (hslot : s.game.eventResolving = false) :
    s.game.Within (s.game.limits.maxHandSize + 1) s'.game := by
  cases h with
  | conduct h => exact h.within.mono s.game.handLimit_le
  | piece hpaid hlands hsettled h =>
    exact (hlands.within_played hpaid hsettled h).mono s.game.handLimit_le
  | @event player id resolved shelved _ hresolved hshelved hrest =>
    have hopen : (s.resolving true).game.Within (s.game.limits.maxHandSize + 1) resolved.game :=
      hresolved.within
    have hput : resolved.game.Within (s.game.limits.maxHandSize + 1) shelved.game :=
      hshelved.within
    have hlimits : shelved.game.limits = s.game.limits := hput.limits.trans hopen.limits
    have hclosed : (shelved.resolving false).game.Within (s.game.limits.maxHandSize + 1) s'.game :=
      hrest.within.mono (hlimits ▸ (shelved.resolving false).game.handLimit_le)
    exact {
      limits := hclosed.limits.trans hlimits
      slot := hclosed.slot.trans hslot.symm
      hands := hopen.hands.trans (hput.hands.trans hclosed.hands)
      solvent := fun hm =>
        have hshelved := hput.solvent (hopen.solvent (hm.of_energy rfl fun _ => rfl))
        hclosed.solvent (hshelved.of_energy rfl fun _ => rfl) }

namespace Match
variable {m m' : Match} {depth n : Nat} {c : Command} {trace : List Happening}

theorem hand_scratch (m : Match) (player c : Color) (chosen : List Choice) :
    ((m.heard.scratch player chosen).game.seat c).hand = (m.seat c).hand := by
  cases player <;> cases c <;> rfl

theorem energy_scratch (m : Match) (player c : Color) (chosen : List Choice) :
    ((m.heard.scratch player chosen).game.seat c).energy = (m.seat c).energy := by
  cases player <;> cases c <;> rfl

theorem Repeats.within (h : m.Repeats m') : m.Within n m' := by
  refine .of_bearing h.bearing ?_
  obtain ⟨notices, rfl⟩ := h.told
  exact .of_rests (rests_withNotices notices m)

theorem within_submitted (h : m.submitTraced depth c = .ok (m', trace))
    (hslot : m.eventResolving = false) : m.Within (m.limits.maxHandSize + 1) m' := by
  obtain ⟨first, last, hundergoes⟩ := undergoes h
  by_cases haccepted : m'.Accepted
  · have hfirst : m.Within (m.limits.maxHandSize + 1) first.game := hundergoes.begins.within
    have hlast := hundergoes.venture.within (hfirst.slot.trans hslot)
    rw [hfirst.limits] at hlast
    exact (hfirst.trans hlast).trans (hundergoes.stands haccepted).1.within
  · exact (hundergoes.discarded haccepted).within

end Match

/-! ### Matches -/

namespace MatchSetup
variable {s : MatchSetup} {m m' : Match}

/-- The limits of the setup, to which the players are bound between commands. -/
structure Binds (s : MatchSetup) (m : Match) : Prop where
  limits : m.limits = s.limits
  slot : m.eventResolving = false
  solvent : m.Solvent
  hands : ∀ c, (m.seat c).hand.length ≤
    max s.limits.startingHandSize (s.limits.maxHandSize + 1)

theorem hand_start (h : s.start = .ok m) (c : Color) :
    (m.seat c).hand.length ≤ s.limits.startingHandSize := by
  have hdealt : ((Play.drawTimes .orange s.limits.startingHandSize
      (Play.drawTimes .blue s.limits.startingHandSize s.tableOf)).seat c).hand.length ≤
        s.limits.startingHandSize := by
    have hblue := Match.hand_drawTimes .blue c s.limits.startingHandSize s.tableOf
    have horange := Match.hand_drawTimes .orange c s.limits.startingHandSize
      (Play.drawTimes .blue s.limits.startingHandSize s.tableOf)
    have hnone : (s.tableOf.seat c).hand.length = 0 := by cases c <;> rfl
    cases c <;> simp at hblue horange <;> omega
  rw [start_eq h]
  cases c <;> exact hdealt

theorem binds_start (h : s.start = .ok m) : s.Binds m := by
  have hclock : m.clock = _ := congrArg (·.1.1) (bearing_start h)
  have hmeans : m.means = _ := congrArg (·.2) (bearing_start h)
  have hlimits : m.limits = s.limits := congrArg Clock.limits hclock
  have hpositive := maxEnergy_pos h
  refine ⟨hlimits, congrArg Means.slot hmeans, ⟨hlimits ▸ hpositive, fun c => ?_, fun c => ?_⟩,
    fun c => Nat.le_trans (hand_start h c) (Nat.le_max_left _ _)⟩
  · rw [← Match.totals_clock, hclock, hlimits]
    cases c with
    | blue => exact ⟨Int.one_nonneg, hpositive⟩
    | orange => exact ⟨Int.le_refl 0, Int.le_of_lt hpositive⟩
  · rw [← Match.available_means, hmeans]
    cases c with
    | blue => exact Int.one_nonneg
    | orange => exact Int.le_refl 0

theorem Binds.next {depth : Nat} {c : Command} {trace : List Happening} (hm : s.Binds m)
    (h : m.submitTraced depth c = .ok (m', trace)) : s.Binds m' := by
  have hwithin := Match.within_submitted h hm.slot
  refine ⟨hwithin.limits.trans hm.limits, hwithin.slot.trans hm.slot, hwithin.solvent hm.solvent,
    fun d => ?_⟩
  have hbefore := hm.hands d
  have hafter := hwithin.hands d
  rw [hm.limits] at hafter
  omega

theorem Reaches.binds (hm : s.Reaches m) : s.Binds m := by
  induction hm with
  | start h => exact binds_start h
  | next _ h ih => exact ih.next h

end MatchSetup
end HexDuel
