import HexDuel.Proofs.Draws
import HexDuel.Proofs.Uniqueness

/-!
The cards at the beginning of a match. What has been dealt to a player and what is left in the deck
are, one behind the other, the deck as it was shuffled, and no two of all these cards have one id.
-/

set_option autoImplicit false

namespace HexDuel

namespace Match

/-- The cards in the hands, in the decks and on the board; those of a shared deck count once. -/
def inventory (m : Match) : List Card :=
  (m.seat .blue).hand ++ (m.seat .orange).hand ++ m.undrawn ++ m.board.cards

theorem copiesIn_inventory_le (m : Match) (id : CardId) :
    copiesIn id m.inventory ≤ m.copies id := by
  unfold inventory copies Seat.held
  simp only [copiesIn_append]
  omega

theorem Unique.nodup_inventory {m : Match} (h : m.Unique) : (m.inventory.map (·.id)).Nodup :=
  List.nodup_iff_count_le_one.2 fun id => Nat.le_trans (m.copiesIn_inventory_le id) (h.once id)

/-! ### Cards that are drawn -/

namespace Serves
variable {m m' : Match} {c : Color} {gone taken burnt : List Card}

theorem hand (h : m.Serves c gone taken burnt m') :
    (m'.seat c).hand = (m.seat c).hand ++ taken := (congrArg Seat.hand h.seat :)

theorem hand_opponent (h : m.Serves c gone taken burnt m') :
    (m'.seat c.opponent).hand = (m.seat c.opponent).hand := (congrArg Seat.hand h.opponent :)

theorem format (h : m.Serves c gone taken burnt m') : m'.format = m.format :=
  (congrArg Match.format h.rest :)

/-- What is drawn goes from the front of the deck to the end of the hand. -/
theorem hand_append_deck (h : m.Serves c gone gone [] m') :
    (m'.seat c).hand ++ (m'.seat c).deck = (m.seat c).hand ++ (m.seat c).deck := by
  rw [h.hand, h.deck, List.append_assoc]

theorem deck_opponent_normal (h : m.Serves c gone taken burnt m') (hformat : m.format = .normal) :
    (m'.seat c.opponent).deck = (m.seat c.opponent).deck := by
  rw [h.opponent, hformat]

/-- Who shares a deck with the other player still does. -/
theorem deck_opponent_shared (h : m.Serves c gone taken burnt m')
    (hformat : m.format = .sharedDeck) (hsame : (m.seat c.opponent).deck = (m.seat c).deck) :
    (m'.seat c.opponent).deck = (m'.seat c).deck := by
  rw [h.opponent, hformat]
  simp [hsame, h.deck]

end Serves
end Match

namespace MatchSetup

variable {s : MatchSetup} {m : Match}

/-! ### The deal -/

/-- Blue is dealt its cards first, and then orange is. -/
theorem serves_start (h : s.start = .ok m) : ∃ between dealt blue orange,
    s.tableOf.Serves .blue blue blue [] between ∧
    between.Serves .orange orange orange [] dealt ∧
    ∀ c, (m.seat c).hand = (dealt.seat c).hand ∧ (m.seat c).deck = (dealt.seat c).deck := by
  refine ⟨_, _, _, _, Play.serves_drawTimes .blue s.limits.startingHandSize s.tableOf,
    Play.serves_drawTimes .orange s.limits.startingHandSize _, fun c => ?_⟩
  rw [start_eq h]
  cases c <;> exact ⟨rfl, rfl⟩

theorem dealt_normal (h : s.start = .ok m) (hformat : s.format = .normal) (c : Color) :
    (m.seat c).hand ++ (m.seat c).deck = (s.tableOf.seat c).deck := by
  obtain ⟨between, dealt, blue, orange, hblue, horange, hend⟩ := serves_start h
  have hbetween : between.format = .normal := hblue.format.trans hformat
  rw [(hend c).1, (hend c).2]
  cases c with
  | blue =>
    have hhand : (dealt.seat .blue).hand = (between.seat .blue).hand := horange.hand_opponent
    have hdeck : (dealt.seat .blue).deck = (between.seat .blue).deck :=
      horange.deck_opponent_normal hbetween
    rw [hhand, hdeck, hblue.hand_append_deck]
    rfl
  | orange =>
    have hhand : (between.seat .orange).hand = [] := hblue.hand_opponent
    have hdeck : (between.seat .orange).deck = (s.tableOf.seat .orange).deck :=
      hblue.deck_opponent_normal hformat
    rw [horange.hand_append_deck, hhand, hdeck]
    rfl

theorem dealt_shared (h : s.start = .ok m) (hformat : s.format = .sharedDeck) :
    (m.seat .blue).deck = (m.seat .orange).deck ∧
    (m.seat .blue).hand ++ (m.seat .orange).hand ++ (m.seat .blue).deck =
      (s.tableOf.seat .blue).deck := by
  obtain ⟨between, dealt, blue, orange, hblue, horange, hend⟩ := serves_start h
  have hbetween : between.format = .sharedDeck := hblue.format.trans hformat
  have hshared : (between.seat .orange).deck = (between.seat .blue).deck :=
    hblue.deck_opponent_shared hformat (s.shared_tableOf hformat).symm
  have hsame : (dealt.seat .blue).deck = (dealt.seat .orange).deck :=
    horange.deck_opponent_shared hbetween hshared.symm
  have hhand : (dealt.seat .blue).hand = (between.seat .blue).hand := horange.hand_opponent
  have hnone : (between.seat .orange).hand = [] := hblue.hand_opponent
  refine ⟨by rw [(hend .blue).2, (hend .orange).2, hsame], ?_⟩
  calc (m.seat .blue).hand ++ (m.seat .orange).hand ++ (m.seat .blue).deck
      = (between.seat .blue).hand ++ ((dealt.seat .orange).hand ++ (dealt.seat .orange).deck) := by
        rw [(hend .blue).1, (hend .orange).1, (hend .blue).2, hhand, hsame, List.append_assoc]
    _ = (between.seat .blue).hand ++ (between.seat .blue).deck := by
        rw [horange.hand_append_deck, hnone, List.nil_append, hshared]
    _ = (s.tableOf.seat .blue).deck := hblue.hand_append_deck

/-- Decks that were built from a library give every card of a match an id of its own, whatever the
names are: no two cards that are in a hand, in a deck or on the board at the beginning have the same
one, and on the board are the cores. What a player holds and what is left in the deck make up the
cards that the player brought, or, when the deck is shared, those that both brought. -/
theorem BuiltFrom.dealt_once {l : Library} {names : PerSide (List String)}
    (hbuilt : s.BuiltFrom l names) (h : s.start = .ok m) :
    (m.inventory.map (·.id)).Nodup ∧
    m.board.cards = [coreCard .blue s.limits.coreHealth, coreCard .orange s.limits.coreHealth] ∧
    (s.format = .normal →
      ∀ c, ((m.seat c).hand ++ (m.seat c).deck).Perm (ownedBy c (s.decks.get c))) ∧
    (s.format = .sharedDeck → (m.seat .blue).deck = (m.seat .orange).deck ∧
      ((m.seat .blue).hand ++ (m.seat .orange).hand ++ (m.seat .blue).deck).Perm
        (ownedBy .blue s.decks.blue ++ ownedBy .orange s.decks.orange)) := by
  refine ⟨(Match.unique_start hbuilt h).nodup_inventory, ?_, fun hformat c => ?_, fun hformat => ?_⟩
  · rw [board_start h]
    rfl
  · rw [dealt_normal h hformat]
    exact perm_deck_normal hformat c
  · obtain ⟨hsame, hdealt⟩ := dealt_shared h hformat
    rw [hdealt]
    exact ⟨hsame, perm_deck_shared hformat⟩

end MatchSetup

/-- Cards whose names look like ids of each other. -/
def Library.lookalikes : Library where
  entries := ["A", "A#1", "blue/A"].map fun name =>
    { name := name, type := .event, cost := 0, stats := none, text := "", sentences := [],
      origin := .builtin }

/-- A shared deck of them. -/
def MatchSetup.lookalikes : MatchSetup :=
  { solo [] with
    decks.blue := (Library.lookalikes.buildDeck ["A", "A#1", "A"]).toOption.getD []
    decks.orange := (Library.lookalikes.buildDeck ["A#1", "blue/A"]).toOption.getD []
    format := .sharedDeck }

theorem MatchSetup.builtFrom_lookalikes :
    lookalikes.BuiltFrom .lookalikes ⟨["A", "A#1", "A"], ["A#1", "blue/A"]⟩ := ⟨rfl, rfl⟩

/-- Five cards and the cores have seven ids. -/
theorem MatchSetup.BuiltFrom.dealt_once_lookalikes :
    ∃ m, lookalikes.BuiltFrom .lookalikes ⟨["A", "A#1", "A"], ["A#1", "blue/A"]⟩ ∧
      lookalikes.start = .ok m ∧ (m.inventory.map (·.id)).Nodup ∧ m.inventory.length = 7 ∧
      m.board.cards.map (·.id) = ["blue/core", "orange/core"] ∧
      (m.seat .blue).deck = (m.seat .orange).deck ∧
      ((m.seat .blue).hand ++ (m.seat .orange).hand ++ (m.seat .blue).deck).Perm
        (ownedBy .blue lookalikes.decks.blue ++ ownedBy .orange lookalikes.decks.orange) := by
  have hrun : (lookalikes.start.holds fun m => m.inventory.length == 7) = true := by
    decide +kernel
  obtain ⟨m, hstart, hlength⟩ := Outcome.exists_of_holds hrun
  obtain ⟨hnodup, hcores, -, hshared⟩ := builtFrom_lookalikes.dealt_once hstart
  obtain ⟨hsame, hperm⟩ := hshared rfl
  exact ⟨m, builtFrom_lookalikes, hstart, hnodup, eq_of_beq hlength, by rw [hcores]; decide, hsame,
    hperm⟩

end HexDuel
