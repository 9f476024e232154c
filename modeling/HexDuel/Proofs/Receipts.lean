import HexDuel.Proofs.Chronicle
import HexDuel.Proofs.Holdings

/-!
Cards that leave a shared deck. Each player has a copy of it, and the copies stay the same: a card
that leaves the top leaves both, and one player receives it. The receipts of a match, one after the
other, are what is gone from the deck as it was shuffled.
-/

set_option autoImplicit false

namespace HexDuel

/-! ### Receipts -/

/-- A player has received a card from a deck, into the hand or else onto the discard pile. -/
structure Receipt where
  player : Color
  card : Card
  toHand : Bool

namespace Seat

/-- The seat without the top card of the deck. -/
def dropTop (s : Seat) : Seat := { s with deck := s.deck.tail }

def receive (s : Seat) (r : Receipt) : Seat :=
  if r.toHand then { s with hand := s.hand ++ [r.card] }
  else { s with discard := s.discard ++ [r.card] }

@[simp] theorem deck_receive (s : Seat) (r : Receipt) : (s.receive r).deck = s.deck := by
  unfold receive
  split <;> rfl

end Seat

namespace Match
variable {m m' : Match}

/-- The card that is on top of both decks leaves both, one player receives it, and nothing else
changes. -/
structure Hands (m : Match) (r : Receipt) (m' : Match) : Prop where
  top : ∀ c, (m.seat c).deck.head? = some r.card
  receiver : m'.seat r.player = (m.seat r.player).dropTop.receive r
  other : m'.seat r.player.opponent = (m.seat r.player.opponent).dropTop
  rest : { m' with seats := m.seats } = m

theorem Hands.deck {r : Receipt} (h : m.Hands r m') (c : Color) :
    (m.seat c).deck = r.card :: (m'.seat c).deck := by
  obtain ⟨rest, hdeck⟩ := List.head?_eq_some_iff.1 (h.top c)
  have htail : (m'.seat c).deck = (m.seat c).deck.tail := by
    obtain rfl | rfl : c = r.player ∨ c = r.player.opponent := by
      cases c <;> cases r.player <;> simp [Color.opponent]
    · rw [h.receiver, Seat.deck_receive, Seat.dropTop]
    · rw [h.other, Seat.dropTop]
  rw [htail, hdeck, List.tail_cons]

/-- The players share a deck, of which each has a copy. -/
structure SharesDeck (m : Match) : Prop where
  format : m.format = .sharedDeck
  same : (m.seat .blue).deck = (m.seat .orange).deck

theorem SharesDeck.deck (h : m.SharesDeck) (c d : Color) : (m.seat c).deck = (m.seat d).deck := by
  cases c <;> cases d <;> simp [h.same]

theorem takeTop_of_shared (h : m.format = .sharedDeck) (c : Color) :
    m.takeTop c = (m.changeSeat c (·.dropTop)).changeSeat c.opponent (·.dropTop) := by
  have hformat : ∀ f, (m.changeSeat c f).format = .sharedDeck := fun _ => h
  unfold takeTop
  dsimp only
  rw [hformat]
  rfl

/-- The top card of a shared deck goes to the player who takes it. -/
theorem SharesDeck.hands {r : Receipt} (h : m.SharesDeck)
    (htop : m.topCard? r.player = some r.card) :
    m.Hands r ((m.takeTop r.player).changeSeat r.player (·.receive r)) := by
  obtain ⟨c, card, toHand⟩ := r
  rw [takeTop_of_shared h.format]
  refine ⟨fun d => ?_, ?_, ?_, rfl⟩
  · rw [h.deck d c]
    exact htop
  · cases c <;> rfl
  · cases c <;> rfl

end Match

/-! ### Where the decks stay as they are -/

namespace Match
variable {m m' : Match}

/-- The decks, and whether they are one. -/
def stock (m : Match) : Format × List Card × List Card :=
  (m.format, (m.seat .blue).deck, (m.seat .orange).deck)

theorem Rests.stock (h : m.Rests m') : m'.stock = m.stock := by
  unfold Match.stock
  rw [h.format, (h.seat .blue).deck, (h.seat .orange).deck]

theorem stock_changeSeat (m : Match) (c : Color) {f : Seat → Seat}
    (hf : ∀ s : Seat, (f s).deck = s.deck) : (m.changeSeat c f).stock = m.stock := by
  cases c <;> simp [stock, changeSeat, PerSide.modify, seat, PerSide.get, hf]

theorem deck_of_stock (h : m'.stock = m.stock) (c : Color) :
    (m'.seat c).deck = (m.seat c).deck := by
  cases c with
  | blue => exact congrArg (·.2.1) h
  | orange => exact congrArg (·.2.2) h

theorem stock_discard (c : Color) (card : Card) (m : Match) :
    (m.discard c card).stock = m.stock := m.stock_changeSeat c fun _ => rfl

theorem stock_discardFromHand (id : CardId) (m : Match) :
    (Resolving.discardFromHand id m).stock = m.stock := by
  unfold Resolving.discardFromHand
  split
  · rfl
  · split
    · rfl
    · rename_i holder _ _ card _
      have hdropped : (m.dropFromHand holder id).stock = m.stock :=
        m.stock_changeSeat holder fun _ => rfl
      exact (stock_discard holder _ _).trans hdropped

theorem stock_giveBack (c : Color) (card : Card) (m : Match) :
    (Play.giveBack c card m).stock = m.stock := by
  unfold Play.giveBack
  split
  · exact stock_discard c card m
  · exact m.stock_changeSeat c fun _ => rfl

end Match

/-- Cards leave the decks only when they are dealt. -/
theorem Edit.stock {f : Match → Match} (h : Edit f) :
    (∃ c count, f = Play.deal c count) ∨ ∀ m : Match, (f m).stock = m.stock := by
  cases h with
  | deal c count => exact .inl ⟨c, count, rfl⟩
  | moveTo id hex => exact .inr fun m => (Match.Rests.moveTo id hex m).stock
  | takeControl owner id => exact .inr fun m => (Match.Rests.takeControl owner id m).stock
  | withdrawApplied a => exact .inr fun m => (Match.Rests.withdrawApplied a m).stock
  | dropDisabled => exact .inr fun m => (Match.Rests.withdrawAll _ _).stock
  | tickDurations => exact .inr fun m => (Match.Rests.withdrawAll _ _).stock
  | adjustCostOf ability adjustment id =>
    exact .inr fun m =>
      (Tending.adjustCostOf (s := ⟨m, []⟩) ability adjustment id).rests.stock
  | discardFromHand id => exact .inr (Match.stock_discardFromHand id)
  | giveBack c card => exact .inr (Match.stock_giveBack c card)
  | checkVictory => exact .inr fun m => (Match.Rests.checkVictory m).stock
  | chime c => exact .inr fun m => (Match.Rests.chime c m).stock
  | reprint c | dropFromHand c | discard c | setEnergy c | setAvailable c =>
    exact .inr fun m => m.stock_changeSeat c fun _ => rfl
  | _ => exact .inr fun _ => rfl

theorem Step.stock {asks ends : Bool} {s s' : Stage} (h : Step asks ends s s') :
    (∃ c count, s' = s.map (Play.deal c count)) ∨ s'.game.stock = s.game.stock := by
  cases h with
  | edit hf =>
    obtain ⟨c, count, rfl⟩ | hstock := hf.stock
    · exact .inl ⟨c, count, rfl⟩
    · exact .inr (hstock s.game)
  | consult _ hc => exact .inr hc.rests.stock
  | leave c =>
    exact .inr ((Match.Rests.setSelection c .none s.game).trans (.setStatus c "" _)).stock
  | _ => exact .inr rfl

/-! ### Courses with receipts -/

namespace Stage
variable {s s' s'' : Stage} {rs rs' : List Receipt}

/-- A course of single steps, and what the players receive from the shared deck on the way. -/
inductive Deals (s : Stage) : List Receipt → Stage → Prop where
  | refl : Deals s [] s
  | aside {rs : List Receipt} {s' s'' : Stage} : Deals s rs s' → Step true true s' s'' →
    (∀ c, (s''.game.seat c).deck = (s'.game.seat c).deck) → Deals s rs s''
  | receipt {rs : List Receipt} {s' : Stage} {r : Receipt} {m : Match} : Deals s rs s' →
    s'.game.Hands r m → Deals s (rs ++ [r]) ⟨m, s'.trace⟩

namespace Deals

theorem trans (h : s.Deals rs s') (h' : s'.Deals rs' s'') : s.Deals (rs ++ rs') s'' := by
  induction h' with
  | refl => rwa [List.append_nil]
  | aside _ hstep hdeck ih => exact ih.aside hstep hdeck
  | receipt _ hr ih =>
    rw [← List.append_assoc]
    exact ih.receipt hr

theorem single {r : Receipt} {m : Match} (h : s.game.Hands r m) : s.Deals [r] ⟨m, s.trace⟩ :=
  Deals.refl.receipt h

/-- What is gone from the deck is what the players have received, card for card. -/
theorem deck (h : s.Deals rs s') (c : Color) :
    (s.game.seat c).deck = rs.map (·.card) ++ (s'.game.seat c).deck := by
  induction h with
  | refl => rfl
  | aside _ _ hdeck ih => rw [ih, hdeck]
  | receipt _ hr ih => rw [ih, hr.deck c]; simp

end Deals
end Stage

/-! ### Dealing -/

namespace Match

/-- What the player receives when that many cards are dealt: so many as the hand takes, and then the
others onto the discard pile, for as long as there are any. -/
def dealt (m : Match) (c : Color) (count : Nat) : List Receipt :=
  ((m.seat c).deck.take (min count (Play.room m c))).map (⟨c, ·, true⟩) ++
    (((m.seat c).deck.drop (min count (Play.room m c))).take (count - Play.room m c)).map
      (⟨c, ·, false⟩)

end Match

namespace Stage
variable {s s' : Stage} {c : Color}

end Stage

/-! ### Matches with a shared deck -/

namespace MatchSetup
variable {s : MatchSetup} {m : Match} {rs : List Receipt}

/-- The cards of both players, shuffled together. -/
def sharedDeck (s : MatchSetup) : List Card :=
  ((Generator.ofSeed (s.seed.getD 0)).shuffle
    (ownedBy .blue s.decks.blue ++ ownedBy .orange s.decks.orange)).1

theorem deck_tableOf (hformat : s.format = .sharedDeck) (c : Color) :
    (s.tableOf.seat c).deck = s.sharedDeck := by
  simp only [tableOf, shuffledDecks, hformat]
  cases c <;> rfl

/-- What the players have received in a match that goes on from this setup: their opening hands, and
what each command has dealt. A command that is refused or waits for an answer deals in a copy of the
match, which is thrown away. -/
inductive Ledger (s : MatchSetup) : Match → List Receipt → Prop where
  | start {m : Match} {rs : List Receipt} : s.start = .ok m →
    Stage.Deals ⟨s.tableOf, []⟩ rs ⟨m, []⟩ → Ledger s m rs
  | idle {depth : Nat} {m m' : Match} {c : Command} {trace : List Happening} {rs : List Receipt} :
    Ledger s m rs → m.submitTraced depth c = .ok (m', trace) → ¬ m'.Accepted → m.Retold m' →
    Ledger s m' rs
  | done {depth : Nat} {m m' : Match} {c : Command} {trace : List Happening}
    {rs rs' : List Receipt} {first last : Stage} : Ledger s m rs →
    m.submitTraced depth c = .ok (m', trace) → m'.Accepted → m.Retold first.game →
    first.trace = [] → first.Deals rs' last → last.game.Retold m' → last.trace = trace →
    Ledger s m' (rs ++ rs')

/-- The receipts and what is left are the deck as it was shuffled. -/
theorem Ledger.deck (h : s.Ledger m rs) (hformat : s.format = .sharedDeck) (c : Color) :
    s.sharedDeck = rs.map (·.card) ++ (m.seat c).deck := by
  have hretold : ∀ {m m' : Match}, m.Retold m' → (m'.seat c).deck = (m.seat c).deck := by
    rintro m _ ⟨n, rfl⟩
    exact Match.deck_of_stock (Match.rests_withNotices n m).stock c
  induction h with
  | start _ hdeals =>
    rw [← deck_tableOf hformat c]
    exact hdeals.deck c
  | idle _ _ _ htold ih => rw [ih, hretold htold]
  | done _ _ _ hbegins _ hdeals hends _ ih =>
    rw [ih, ← hretold hbegins, hdeals.deck c, hretold hends, List.map_append, List.append_assoc]

end MatchSetup
end HexDuel
