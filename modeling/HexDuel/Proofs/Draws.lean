import HexDuel.Proofs.Holdings
import HexDuel.Proofs.Restraint

/-!
What drawing cards does with hands, discard piles and decks. The hand takes cards from the top of
the deck for as long as it has room, those after them go to the discard pile with a line of the log
each, and a deck that is shared loses the same cards on the other side.
-/

set_option autoImplicit false

namespace HexDuel

/-! ### Cards that leave the deck -/

namespace Match

/-- The line of the log about a card that the hand has not taken. -/
def fullHandEntry (m : Match) (c : Color) : LogEntry :=
  ⟨some c, m.subject (some c) ++ Play.fullHandNote m ++ ".", 0, []⟩

/-- The cards `gone` have left the top of the deck of the player, those of them that are `taken` to
the hand and those that are `burnt` to the discard pile, which the log tells of. -/
structure Serves (m : Match) (c : Color) (gone taken burnt : List Card) (m' : Match) : Prop where
  deck : (m.seat c).deck = gone ++ (m'.seat c).deck
  seat : m'.seat c = { m.seat c with
    hand := (m.seat c).hand ++ taken
    discard := (m.seat c).discard ++ burnt
    deck := (m'.seat c).deck }
  opponent : m'.seat c.opponent = { m.seat c.opponent with
    deck := match m.format with
      | .normal => (m.seat c.opponent).deck
      | .sharedDeck => (m.seat c.opponent).deck.drop gone.length }
  log : m'.log = m.log ++ List.replicate burnt.length (m.fullHandEntry c)
  rest : { m' with seats := m.seats, log := m.log } = m

namespace Serves
variable {m m' m'' : Match} {c : Color} {gone gone' taken taken' burnt burnt' : List Card}

theorem refl (m : Match) (c : Color) : m.Serves c [] [] [] m := by
  refine ⟨rfl, by simp, ?_, by simp, rfl⟩
  cases m.format <;> rfl

theorem trans (h : m.Serves c gone taken burnt m') (h' : m'.Serves c gone' taken' burnt' m'') :
    m.Serves c (gone ++ gone') (taken ++ taken') (burnt ++ burnt') m'' where
  deck := by rw [h.deck, h'.deck, List.append_assoc]
  seat := by rw [h'.seat, h.seat]; simp
  opponent := by
    have hformat : m'.format = m.format := (congrArg Match.format h.rest :)
    rw [h'.opponent, h.opponent, hformat]
    cases m.format with
    | normal => rfl
    | sharedDeck => simp [List.drop_drop]
  log := by
    have hentry : m'.fullHandEntry c = m.fullHandEntry c :=
      (congrArg (fullHandEntry · c) h.rest :)
    rw [h'.log, h.log, hentry, List.append_assoc, List.replicate_append_replicate,
      List.length_append]
  rest := by
    have hrest := h.rest
    rw [← h'.rest] at hrest
    exact hrest

end Serves

theorem serves_takeTop {m : Match} {c : Color} {card : Card} (h : m.topCard? c = some card) :
    m.Serves c [card] [] [] (m.takeTop c) := by
  obtain ⟨rest, hdeck⟩ := List.head?_eq_some_iff.1 h
  have hseat : (m.takeTop c).seat c = { m.seat c with deck := rest } := by
    have hformat : ∀ f, (m.changeSeat c f).format = m.format := fun _ => rfl
    have htail : rest = (m.seat c).deck.tail := by rw [hdeck]; rfl
    simp only [takeTop, hformat, htail]
    cases m.format <;> cases c <;> rfl
  have hopponent : (m.takeTop c).seat c.opponent = { m.seat c.opponent with
      deck := match m.format with
        | .normal => (m.seat c.opponent).deck
        | .sharedDeck => (m.seat c.opponent).deck.drop 1 } := by
    have hformat : ∀ f, (m.changeSeat c f).format = m.format := fun _ => rfl
    simp only [takeTop, hformat, List.drop_one]
    cases m.format <;> cases c <;> rfl
  have hrest : { m.takeTop c with seats := m.seats } = m := by
    unfold takeTop
    dsimp only
    split <;> rfl
  have hlog : (m.takeTop c).log = m.log := (congrArg Match.log hrest :)
  refine ⟨by rw [hseat, hdeck]; rfl, by simp [hseat], hopponent, by simp [hlog], ?_⟩
  rw [← hlog]
  exact hrest

theorem serves_addToHand (m : Match) (c : Color) (card : Card) :
    m.Serves c [] [card] [] (m.addToHand c card) := by
  refine ⟨by simp [addToHand], by simp [addToHand], ?_, by simp [addToHand, changeSeat], rfl⟩
  simp only [addToHand, seat_changeSeat_opponent]
  cases m.format <;> rfl

theorem serves_discard (m : Match) (c : Color) (card : Card) :
    m.Serves c [] [] [card] ((m.discard c card).addLog (some c) (Play.fullHandNote m) []) := by
  have hseat : ((m.discard c card).addLog (some c) (Play.fullHandNote m) []).seat c =
      { m.seat c with discard := (m.seat c).discard ++ [card] } := seat_changeSeat_self m c _
  have hopponent : ((m.discard c card).addLog (some c) (Play.fullHandNote m) []).seat c.opponent =
      m.seat c.opponent := seat_changeSeat_opponent m c _
  refine ⟨by simp [hseat], by simp [hseat], ?_, rfl, rfl⟩
  rw [hopponent]
  cases m.format <;> rfl

theorem serves_drawTop {m : Match} {c : Color} {card : Card} (h : m.topCard? c = some card) :
    m.Serves c [card] [card] [] (m.drawTop c) := by
  simp only [drawTop, h]
  exact (serves_takeTop h).trans (serves_addToHand (m.takeTop c) c card)

theorem serves_burnTop {m : Match} {c : Color} {card : Card} (h : m.topCard? c = some card) :
    m.Serves c [card] [] [card]
      ((m.burnTop c).addLog (some c) (Play.fullHandNote m) []) := by
  have htaken := serves_takeTop h
  have hnote : Play.fullHandNote (m.takeTop c) = Play.fullHandNote m :=
    (congrArg Play.fullHandNote htaken.rest :)
  have hburnt := serves_discard (m.takeTop c) c card
  rw [hnote] at hburnt
  simp only [burnTop, h]
  exact htaken.trans hburnt

end Match

namespace Play
open Match

theorem serves_drawTimes (c : Color) (n : Nat) (m : Match) :
    m.Serves c ((m.seat c).deck.take n) ((m.seat c).deck.take n) [] (drawTimes c n m) := by
  induction n generalizing m with
  | zero => exact .refl m c
  | succ n ih =>
    unfold drawTimes
    cases htop : m.topCard? c with
    | none =>
      have hdeck : (m.seat c).deck = [] := List.head?_eq_none_iff.1 htop
      simpa [hdeck] using Serves.refl m c
    | some card =>
      have hfirst := serves_drawTop htop
      have hdeck : (m.seat c).deck = card :: ((m.drawTop c).seat c).deck := hfirst.deck
      rw [hdeck]
      exact hfirst.trans (ih (m.drawTop c))

theorem serves_burnTimes (c : Color) (n : Nat) (m : Match) :
    m.Serves c ((m.seat c).deck.take n) [] ((m.seat c).deck.take n) (burnTimes c n m) := by
  induction n generalizing m with
  | zero => exact .refl m c
  | succ n ih =>
    unfold burnTimes
    cases htop : m.topCard? c with
    | none =>
      have hdeck : (m.seat c).deck = [] := List.head?_eq_none_iff.1 htop
      simpa [hdeck] using Serves.refl m c
    | some card =>
      have hfirst := serves_burnTop htop
      rw [show (m.seat c).deck = card :: _ from hfirst.deck]
      exact hfirst.trans (ih _)

/-- The deck loses as many cards as are asked for, the hand those that it has room for. -/
theorem serves_deal (c : Color) (count : Nat) (m : Match) :
    m.Serves c ((m.seat c).deck.take count) ((m.seat c).deck.take (min count (room m c)))
      (((m.seat c).deck.drop (min count (room m c))).take (count - min count (room m c)))
      (deal c count m) := by
  have hdeal : deal c count m = burnTimes c (count - min count (room m c))
      (drawTimes c (min count (room m c)) m) := rfl
  have hsum : min count (room m c) + (count - min count (room m c)) = count := by omega
  rw [hdeal]
  generalize min count (room m c) = drawn at hsum ⊢
  have hdrawn := serves_drawTimes c drawn m
  have hleft : ((drawTimes c drawn m).seat c).deck = (m.seat c).deck.drop drawn :=
    List.append_cancel_left (hdrawn.deck.symm.trans (List.take_append_drop drawn _).symm)
  have hburnt := serves_burnTimes c (count - drawn) (drawTimes c drawn m)
  have hboth := hdrawn.trans hburnt
  rw [hleft, ← List.take_add, hsum] at hboth
  simpa using hboth

end Play

namespace Match

/-- How many cards the hand takes when so many are drawn: no more than it has room for, and no more
than the deck has. -/
def takes (m : Match) (c : Color) (count : Nat) : Nat :=
  min count (min (Play.room m c) (m.seat c).deck.length)

/-- How many cards leave the deck. -/
def loses (m : Match) (c : Color) (count : Nat) : Nat := min count (m.seat c).deck.length

/-- So many cards have been drawn. The hand has gained the first cards of the deck, the discard pile
those after them, with a line of the log for each, and the other deck, when it is the same one, has
lost them too. But for what abilities do to the costs of cards in hand this is all that has become
of the players, and abilities have been brought up to date. -/
structure Drawn (m : Match) (c : Color) (count : Nat) (m' : Match) : Prop where
  seat : (m'.seat c).unwritten = Seat.unwritten { m.seat c with
    hand := (m.seat c).hand ++ (m.seat c).deck.take (m.takes c count)
    discard := (m.seat c).discard ++
      ((m.seat c).deck.drop (m.takes c count)).take (m.loses c count - m.takes c count)
    deck := (m.seat c).deck.drop (m.loses c count) }
  opponent : (m'.seat c.opponent).unwritten = Seat.unwritten { m.seat c.opponent with
    deck := match m.format with
      | .normal => (m.seat c.opponent).deck
      | .sharedDeck => (m.seat c).deck.drop (m.loses c count) }
  log : ∃ lines, m'.log = m.log ++
      List.replicate (m.loses c count - m.takes c count) (m.fullHandEntry c) ++ lines ∧
    ∀ e ∈ lines, e.player = none
  rest : { m'.unattended with seats := m.seats } = { m.unattended with seats := m.seats }

/-- The same cards, counted against the deck. -/
theorem serves_deal_taken (m : Match) (c : Color) (count : Nat) :
    m.Serves c ((m.seat c).deck.take (m.loses c count)) ((m.seat c).deck.take (m.takes c count))
      (((m.seat c).deck.drop (m.takes c count)).take (m.loses c count - m.takes c count))
      (Play.deal c count m) := by
  have hserves := Play.serves_deal c count m
  have htakes : (m.seat c).deck.take (min count (Play.room m c)) =
      (m.seat c).deck.take (m.takes c count) := by
    rw [List.take_eq_take_iff]
    unfold takes
    omega
  have hloses : (m.seat c).deck.take count = (m.seat c).deck.take (m.loses c count) := by
    rw [List.take_eq_take_iff]
    unfold loses
    omega
  have hburnt : ((m.seat c).deck.drop (min count (Play.room m c))).take
        (count - min count (Play.room m c)) =
      ((m.seat c).deck.drop (m.takes c count)).take (m.loses c count - m.takes c count) := by
    by_cases hshort : (m.seat c).deck.length ≤ min count (Play.room m c)
    · have hall : m.takes c count = (m.seat c).deck.length := by unfold takes; omega
      rw [List.drop_eq_nil_of_le hshort, hall, List.drop_length, List.take_nil, List.take_nil]
    · have hall : m.takes c count = min count (Play.room m c) := by unfold takes; omega
      rw [hall, List.take_eq_take_iff, List.length_drop]
      unfold loses
      omega
  rwa [htakes, hloses, hburnt] at hserves

theorem Serves.drawn {m m' m'' : Match} {c : Color} {count : Nat} (hm : m.Shared)
    (h : m.Serves c ((m.seat c).deck.take (m.loses c count))
      ((m.seat c).deck.take (m.takes c count))
      (((m.seat c).deck.drop (m.takes c count)).take (m.loses c count - m.takes c count)) m')
    (h' : m'.Restrained m'') : m.Drawn c count m'' where
  seat := by
    have hdeck : (m'.seat c).deck = (m.seat c).deck.drop (m.loses c count) :=
      List.append_cancel_left (h.deck.symm.trans (List.take_append_drop _ _).symm)
    rw [h'.seat c, h.seat, hdeck]
  opponent := by
    rw [h'.seat c.opponent, h.opponent]
    cases hformat : m.format with
    | normal => rfl
    | sharedDeck =>
      have hsame : (m.seat c.opponent).deck = (m.seat c).deck := by
        cases c with
        | blue => exact (hm hformat).symm
        | orange => exact hm hformat
      simp [hsame, loses]
  log := by
    obtain ⟨lines, hlog, hnone⟩ := h'.log
    have hburnt : (((m.seat c).deck.drop (m.takes c count)).take
        (m.loses c count - m.takes c count)).length = m.loses c count - m.takes c count := by
      simp [loses]
      omega
    exact ⟨lines, by rw [hlog, h.log, hburnt], hnone⟩
  rest := by
    rw [h'.unattended]
    exact (congrArg (fun n : Match => { n.unattended with seats := m.seats }) h.rest :)

end Match

namespace Play

/-- Drawing is exact: whatever is asked for, what the hand has room for, and what the deck has. -/
theorem drawCards_drawn {s s' : Stage} {u : Unit} {c : Color} {count : Nat}
    (hshared : s.game.Shared) (h : (drawCards c count).run s = .ok (u, s')) :
    s.game.Drawn c count s'.game := by
  obtain ⟨_, s₁, hdeal, hreapply⟩ := run_bind h
  cases hdeal
  exact (s.game.serves_deal_taken c count).drawn hshared (restrained_reapply hreapply)

/-- Blue holds one card of a shared deck and asks for four more. Two are in the hand then, and the
other two that the deck had are on the discard pile. -/
theorem drawCards_drawn_solo :
    ∃ s s' : Stage, s.game.format = .sharedDeck ∧ s.game.Shared ∧
      (drawCards .blue 4).run s = .ok ((), s') ∧ s.game.takes .blue 4 = 1 ∧
      s.game.loses .blue 4 = 3 ∧ s.game.Drawn .blue 4 s'.game := by
  let solo := MatchSetup.solo []
  let setup : MatchSetup :=
    { solo with
      decks := ⟨solo.decks.blue.flatMap (List.replicate 5), []⟩
      format := .sharedDeck
      limits := { Limits.standard with maxHandSize := 2, startingHandSize := 1 } }
  have hrun : (setup.start.holds fun m => m.format == .sharedDeck &&
      ((drawCards .blue 4).run ⟨m, []⟩).holds fun _ =>
        decide (m.takes .blue 4 = 1 ∧ m.loses .blue 4 = 3)) = true := by decide +kernel
  obtain ⟨m, hstart, hrun⟩ := Outcome.exists_of_holds hrun
  obtain ⟨hformat, hrun⟩ := Bool.and_eq_true_iff.1 hrun
  obtain ⟨⟨u, s'⟩, hdraw, hend⟩ := Outcome.exists_of_holds hrun
  obtain ⟨htakes, hloses⟩ := of_decide_eq_true hend
  have hshared : m.Shared := (Match.Reachable.start hstart).shared
  exact ⟨⟨m, []⟩, s', eq_of_beq hformat, hshared, hdraw, htakes, hloses,
    drawCards_drawn hshared hdraw⟩

end Play
end HexDuel
