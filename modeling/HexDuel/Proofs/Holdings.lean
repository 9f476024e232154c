import HexDuel.Proofs.Gains
import HexDuel.Proofs.Lasting

/-!
No card is ever lost. Whatever an act takes it also puts somewhere, so that with every command the
match holds at least as many copies of each card as before.
-/

set_option autoImplicit false

namespace HexDuel

/-! ### Decks -/

namespace Generator

theorem exchange_perm {α : Type} (xs : List α) (i j : Nat) : (exchange xs i j).Perm xs := by
  unfold exchange
  split
  · rename_i a b ha hb
    obtain ⟨hi, rfl⟩ := List.getElem?_eq_some_iff.1 ha
    obtain ⟨hj, rfl⟩ := List.getElem?_eq_some_iff.1 hb
    exact List.set_set_perm hi hj
  · exact .refl xs

theorem shuffleFrom_perm {α : Type} (i : Nat) (xs : List α) (g : Generator) :
    (shuffleFrom i xs g).1.Perm xs := by
  induction i generalizing xs g with
  | zero => exact .refl xs
  | succ i ih => exact (ih _ _).trans (exchange_perm xs (i + 1) _)

theorem shuffle_perm {α : Type} (g : Generator) (xs : List α) : (g.shuffle xs).1.Perm xs :=
  shuffleFrom_perm _ xs g

end Generator

namespace MatchSetup

/-- All cards that are dealt in: those that the players bring, and the cores. -/
def cards (s : MatchSetup) : List Card :=
  ownedBy .blue s.decks.blue ++ ownedBy .orange s.decks.orange ++
    [coreCard .blue s.limits.coreHealth, coreCard .orange s.limits.coreHealth]

theorem shared_tableOf (s : MatchSetup) : s.tableOf.Shared := by
  intro hformat
  have hformat : s.format = .sharedDeck := hformat
  simp only [tableOf, shuffledDecks, hformat]
  rfl

theorem perm_deck_normal {s : MatchSetup} (hformat : s.format = .normal) (c : Color) :
    (s.tableOf.seat c).deck.Perm (ownedBy c (s.decks.get c)) := by
  simp only [tableOf, shuffledDecks, hformat]
  cases c <;> exact Generator.shuffle_perm _ _

theorem perm_deck_shared {s : MatchSetup} (hformat : s.format = .sharedDeck) :
    (s.tableOf.seat .blue).deck.Perm
      (ownedBy .blue s.decks.blue ++ ownedBy .orange s.decks.orange) := by
  simp only [tableOf, shuffledDecks, hformat]
  exact Generator.shuffle_perm _ _

theorem perm_undrawn (s : MatchSetup) : s.tableOf.undrawn.Perm
    (ownedBy .blue s.decks.blue ++ ownedBy .orange s.decks.orange) := by
  have hformat : s.tableOf.format = s.format := rfl
  unfold Match.undrawn
  rw [hformat]
  cases hshared : s.format with
  | normal => exact (perm_deck_normal hshared .blue).append (perm_deck_normal hshared .orange)
  | sharedDeck => exact perm_deck_shared hshared

theorem copies_tableOf (s : MatchSetup) (id : CardId) :
    s.tableOf.copies id = copiesIn id s.cards := by
  have hheld : ∀ c, (s.tableOf.seat c).held id = 0 := fun c => by cases c <;> rfl
  have hboard : s.tableOf.board.cards =
      [coreCard .blue s.limits.coreHealth, coreCard .orange s.limits.coreHealth] := rfl
  unfold Match.copies cards
  rw [hheld, hheld, hboard, copiesIn_perm s.perm_undrawn, copiesIn_append id (_ ++ _)]
  omega

theorem moves_start {s : MatchSetup} {m : Match} (h : s.start = .ok m) :
    s.tableOf.Moves [] m [] := by
  rw [start_eq h]
  exact ((Match.Moves.drawTimes .blue _ _).trans (.drawTimes .orange _ _)).trans
    ((Match.Rests.changeSeat .blue (fun seat => { seat with energy := ⟨1, 1⟩ })
      (fun _ => ⟨rfl, rfl, rfl⟩) _).moves [])

theorem copies_of_start {s : MatchSetup} {m : Match} (h : s.start = .ok m) (id : CardId) :
    m.copies id = copiesIn id s.cards := by
  rw [← s.copies_tableOf id]
  exact ((moves_start h).copies s.shared_tableOf id).symm

end MatchSetup

/-! ### Commands -/

namespace Match

variable {depth : Nat} {m m' : Match} {c : Command} {trace : List Happening}

theorem rests_withNotices (n : Notices) (m : Match) : m.Rests (m.withNotices n) :=
  ⟨rfl, fun c => by cases c <;> exact ⟨rfl, rfl, rfl⟩, rfl⟩

/-- No copy of a card is lost. -/
structure Retains (m m' : Match) : Prop where
  shared : m.Shared → m'.Shared
  copies : m.Shared → ∀ id, m.copies id ≤ m'.copies id

theorem Moves.retains {gained : List Card} (h : m.Moves gained m' []) : m.Retains m' where
  shared := h.shared
  copies hm id := by
    have hsum := h.copies hm id
    rw [copiesIn_nil] at hsum
    omega

theorem Retains.trans {m'' : Match} (h : m.Retains m') (h' : m'.Retains m'') : m.Retains m'' where
  shared hm := h'.shared (h.shared hm)
  copies hm id := Nat.le_trans (h.copies hm id) (h'.copies (h.shared hm) id)

theorem lasting_retains (m : Match) : Lasting fun x => x.board.Sound ∧ m.Retains x where
  retold := by
    rintro x _ ⟨n, rfl⟩ ⟨hx, hretains⟩
    exact ⟨hx, hretains.trans ((rests_withNotices n x).moves []).retains⟩
  acts _ _ h hs := by
    obtain ⟨gained, hmoves, -⟩ := h.gains hs.1
    exact ⟨h.deeds.steps.sound hs.1, hs.2.trans hmoves.retains⟩

theorem Reachable.retains (hm : m.Reachable) {cs : List Command}
    (h : m.course depth cs = .ok m') : m.Retains m' :=
  ((lasting_retains m).course h ⟨hm.board_sound, ((Rests.refl m).moves []).retains⟩).2

theorem lasting_shared : Lasting fun x => x.board.Sound ∧ x.Shared where
  retold := by
    rintro x _ ⟨n, rfl⟩ ⟨hx, hshared⟩
    exact ⟨hx, ((rests_withNotices n x).moves []).shared hshared⟩
  acts _ _ h hs := by
    obtain ⟨gained, hmoves, -⟩ := h.gains hs.1
    exact ⟨h.deeds.steps.sound hs.1, hmoves.shared hs.2⟩

theorem Reachable.shared (hm : m.Reachable) : m.Shared := by
  refine (lasting_shared.reachable (fun s m h => ⟨?_, ?_⟩) hm).2
  · exact (Reachable.start h).board_sound
  · exact (MatchSetup.moves_start h).shared s.shared_tableOf

theorem copies_start {s : MatchSetup} (h : s.start = .ok m) (id : CardId) :
    copiesIn id s.cards ≤ m.copies id := Nat.le_of_eq (MatchSetup.copies_of_start h id).symm

/-- Some place holds a copy of the card. -/
def Holds (m : Match) (id : CardId) : Prop :=
  (∃ c, ∃ card ∈ (m.seat c).hand ++ (m.seat c).discard ++ (m.seat c).deck, card.id = id) ∨
    ∃ p ∈ m.board.pieces, p.card.id = id

theorem exists_of_mem_undrawn {card : Card} (h : card ∈ m.undrawn) :
    ∃ c, card ∈ (m.seat c).deck := by
  unfold undrawn at h
  split at h
  · obtain hblue | horange := List.mem_append.1 h
    · exact ⟨.blue, hblue⟩
    · exact ⟨.orange, horange⟩
  · exact ⟨.blue, h⟩

theorem holds_of_copies_pos {id : CardId} (h : 0 < m.copies id) : m.Holds id := by
  have hheld : ∀ c, 0 < (m.seat c).held id → m.Holds id := by
    intro c hpos
    have hpos : 0 < copiesIn id ((m.seat c).hand ++ (m.seat c).discard) := by
      rwa [copiesIn_append]
    obtain ⟨card, hcard, hid⟩ := exists_of_copiesIn_pos hpos
    exact .inl ⟨c, card, List.mem_append_left _ hcard, hid⟩
  have hplace : 0 < (m.seat .blue).held id ∨ 0 < (m.seat .orange).held id ∨
      0 < copiesIn id m.board.cards ∨ 0 < copiesIn id m.undrawn := by
    unfold copies at h
    omega
  obtain hblue | horange | hboard | hdeck := hplace
  · exact hheld .blue hblue
  · exact hheld .orange horange
  · obtain ⟨card, hcard, hid⟩ := exists_of_copiesIn_pos hboard
    obtain ⟨p, hp, rfl⟩ := List.mem_map.1 hcard
    exact .inr ⟨p, hp, hid⟩
  · obtain ⟨card, hcard, hid⟩ := exists_of_copiesIn_pos hdeck
    obtain ⟨c, hc⟩ := exists_of_mem_undrawn hcard
    exact .inl ⟨c, card, List.mem_append_right _ hc, hid⟩

/-- No command ever makes the copies of a card fewer, in whatever places they are, and so every card
that was dealt in can be found for as long as the match goes on. When the deck is shared, both
players have the same one, which is why its cards count once. -/
theorem Reachable.no_card_lost (hm : m.Reachable) :
    (m.format = .sharedDeck → (m.seat .blue).deck = (m.seat .orange).deck) ∧
    (∀ (depth : Nat) (c : Command) (m' : Match) (trace : List Happening),
      m.submitTraced depth c = .ok (m', trace) → ∀ id, m.copies id ≤ m'.copies id) ∧
    ∀ (s : MatchSetup) (depth : Nat) (cs : List Command) (opening : Match),
      s.start = .ok opening → opening.course depth cs = .ok m →
      (∀ id, copiesIn id s.cards ≤ m.copies id) ∧ ∀ card ∈ s.cards, m.Holds card.id := by
  refine ⟨hm.shared, fun depth c m' trace h => ?_, fun s depth cs opening hstart h => ?_⟩
  · exact (hm.retains (course_one h)).copies hm.shared
  have hopening : opening.Reachable := .start hstart
  have hle : ∀ id, copiesIn id s.cards ≤ m.copies id := fun id =>
    Nat.le_trans (copies_start hstart id) ((hopening.retains h).copies hopening.shared id)
  refine ⟨hle, fun card hcard => holds_of_copies_pos ?_⟩
  exact Nat.lt_of_lt_of_le (List.count_pos_iff.2 (List.mem_map_of_mem hcard)) (hle card.id)

/-- Blue's card, which came from a shared deck, destroys both cores. Then it is on the discard pile,
and so are they. -/
theorem Reachable.no_card_lost_solo :
    ∃ (s : MatchSetup) (m m' : Match) (trace : List Happening), s.start = .ok m ∧ m.Reachable ∧
      m.format = .sharedDeck ∧ (m.seat .blue).deck = (m.seat .orange).deck ∧
      m.submitTraced maxDepth .playSolo = .ok (m', trace) ∧ (∀ id, m.copies id ≤ m'.copies id) ∧
      m'.board.entries = [] ∧ s.cards.length = 3 ∧ (∀ id, copiesIn id s.cards ≤ m'.copies id) ∧
      ∀ card ∈ s.cards, m'.Holds card.id := by
  have hrun : (({ MatchSetup.solo [.destroy (.piecesInPlay .any)] with
      format := .sharedDeck } : MatchSetup).start.holds fun m =>
        m.format == .sharedDeck && (m.submitTraced maxDepth .playSolo).holds fun x =>
          x.1.board.entries.isEmpty) = true := by
    decide +kernel
  obtain ⟨m, hstart, hrun⟩ := Outcome.exists_of_holds hrun
  obtain ⟨hformat, hrun⟩ := Bool.and_eq_true_iff.1 hrun
  obtain ⟨⟨m', trace⟩, hplay, hempty⟩ := Outcome.exists_of_holds hrun
  have hm : Reachable m := .start hstart
  have hformat : m.format = .sharedDeck := by simpa using hformat
  obtain ⟨hshared, hstep, -⟩ := hm.no_card_lost
  obtain ⟨-, -, hdealt⟩ := (hm.next hplay).no_card_lost
  obtain ⟨hcopies, hholds⟩ := hdealt _ maxDepth _ m hstart (course_one hplay)
  exact ⟨_, m, m', trace, hstart, hm, hformat, hshared hformat, hplay,
    hstep maxDepth _ m' trace hplay, List.isEmpty_iff.1 hempty, rfl, hcopies, hholds⟩

end Match
end HexDuel
