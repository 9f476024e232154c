import HexDuel.Proofs.Legality
import HexDuel.Proofs.Rounds

/-!
What the policy of matches that play themselves proposes. All of it is legal: nothing that it asks
for is turned away unless there turns out to be nothing to choose from. And as long as a prompt
waits, it proposes an answer.
-/

set_option autoImplicit false

namespace HexDuel

/-- Where no two cards share an id, each card in hand is found under its own. -/
theorem Seat.cardInHand?_of_mem {s : Seat} (h : (s.hand.map (·.id)).Nodup) {c : Card}
    (hc : c ∈ s.hand) : s.cardInHand? c.id = some c := by
  unfold cardInHand?
  generalize s.hand = cards at h hc
  induction cards with
  | nil => cases hc
  | cons card cards ih =>
    rw [List.map_cons, List.nodup_cons] at h
    obtain rfl | hc := List.mem_cons.1 hc
    · exact List.find?_cons_of_pos (beq_self_eq_true _)
    · have hne : card.id ≠ c.id := fun heq => h.1 (heq ▸ List.mem_map_of_mem hc)
      rw [List.find?_cons_of_neg (by simpa using hne)]
      exact ih h.2 hc

/-- Every object is the one that is found on its cell. -/
theorem Board.Sound.pieceAt?_of_mem {b : Board} (hb : b.Sound) {p : Piece} (hp : p ∈ b.pieces) :
    b.pieceAt? p.hex = some p := by
  cases hfound : b.pieceAt? p.hex with
  | none => exact absurd (beq_self_eq_true p.hex) (List.find?_eq_none.1 hfound p hp)
  | some q =>
    obtain ⟨hq, hhex⟩ := Board.mem_of_pieceAt? hfound
    obtain ⟨e, he, rfl⟩ := List.mem_map.1 hp
    obtain ⟨e', he', rfl⟩ := List.mem_map.1 hq
    rw [hb.eq_of_hex he' he hhex]

/-- What a list of results holds is the result of one of its members. -/
theorem Outcome.exists_of_mem_mapM {α β : Type} {f : α → Outcome β} {as : List α} {bs : List β}
    (h : as.mapM f = .ok bs) {b : β} (hb : b ∈ bs) : ∃ a ∈ as, f a = .ok b := by
  induction as generalizing bs with
  | nil =>
    cases h
    cases hb
  | cons a as ih =>
    rw [List.mapM_cons] at h
    obtain ⟨first, hfirst, h⟩ := Outcome.exists_of_bind h
    obtain ⟨rest, hrest, h⟩ := Outcome.exists_of_bind h
    cases h
    obtain rfl | hb := List.mem_cons.1 hb
    · exact ⟨a, List.mem_cons_self, hfirst⟩
    · obtain ⟨other, hmem, hother⟩ := ih hrest hb
      exact ⟨other, List.mem_cons_of_mem _ hmem, hother⟩

namespace SelfPlay
variable {m m' : Match} {player : Color} {c : Command} {cs : List Command}

/-- The player's command starts something that is legal. -/
def Starts (m : Match) (player : Color) (c : Command) : Prop :=
  c.player = player ∧ ∃ resumption, c.resumption? = some resumption ∧ m.Legal player resumption

theorem starts_of_playOf {card : Card} (hcard : (m.seat player).cardInHand? card.id = some card)
    (h : playOf m player card = .ok cs) (hc : c ∈ cs) : Starts m player c := by
  obtain ⟨cost, hcost, h⟩ := Outcome.exists_of_bind h
  split at h
  · cases h
    cases hc
  · rename_i henough
    have henough := Int.not_lt.1 henough
    split at h
    · rename_i htype
      cases h
      obtain rfl := List.mem_singleton.1 hc
      exact ⟨rfl, _, rfl, card, cost, hcard, hcost, henough, .inl htype⟩
    · split at h
      · cases h
        cases hc
      · rename_i hex hhead
        cases h
        obtain rfl := List.mem_singleton.1 hc
        have hin := List.mem_of_mem_head? hhead
        exact ⟨rfl, _, rfl, card, cost, hcard, hcost, henough, .inr ⟨hex, rfl, hin⟩⟩

theorem mem_of_leastBy {α : Type} {measure : α → Nat} {as : List α} {a : α}
    (h : leastBy measure as = some a) : a ∈ as := by
  induction as generalizing a with
  | nil => cases h
  | cons b bs ih =>
    unfold leastBy at h
    split at h
    · cases h
      exact List.mem_cons_self
    · rename_i least hleast
      split at h
      · cases h
        exact List.mem_cons_of_mem _ (ih hleast)
      · cases h
        exact List.mem_cons_self

theorem mem_of_approach {start hex : Hex} {moves : List Hex}
    (h : approach player start moves = some hex) : hex ∈ moves :=
  (List.mem_filter.1 (mem_of_leastBy h)).1

theorem starts_of_actsOf {p : Piece} (hp : m.board.pieceAt? p.hex = some p)
    (howner : p.owner = player) (h : actsOf m player p = .ok cs) (hc : c ∈ cs) :
    Starts m player c := by
  unfold actsOf at h
  split at h
  · cases h
    cases hc
  · obtain ⟨attacks, hattacks, h⟩ := Outcome.exists_of_bind h
    obtain ⟨moves, hmoves, h⟩ := Outcome.exists_of_bind h
    cases h
    obtain hc | hc := List.mem_append.1 hc
    · obtain ⟨target, hhead, rfl⟩ := Option.map_eq_some_iff.1 (Option.mem_toList.1 hc)
      exact ⟨rfl, _, rfl, p, attacks, hp, howner, hattacks, List.mem_of_mem_head? hhead⟩
    · obtain ⟨goal, happroach, rfl⟩ := Option.map_eq_some_iff.1 (Option.mem_toList.1 hc)
      exact ⟨rfl, _, rfl, p, moves, hp, howner, hmoves, mem_of_approach happroach⟩

/-- What is proposed while nothing is asked starts something that is legal. -/
theorem starts_of_candidates (hsound : m.board.Sound) (hpending : m.pending = none)
    (hhand : ((m.seat m.turn).hand.map (·.id)).Nodup) (h : candidates m = .ok cs) (hc : c ∈ cs) :
    Starts m m.turn c := by
  unfold candidates at h
  rw [hpending] at h
  obtain ⟨plays, hplays, h⟩ := Outcome.exists_of_bind h
  obtain ⟨acts, hacts, h⟩ := Outcome.exists_of_bind h
  cases h
  obtain hc | hc := List.mem_append.1 hc
  · obtain ⟨play, hplay, hc⟩ := List.mem_flatten.1 hc
    obtain ⟨card, hcard, hof⟩ := Outcome.exists_of_mem_mapM hplays hplay
    exact starts_of_playOf (Seat.cardInHand?_of_mem hhand hcard) hof hc
  · obtain ⟨act, hact, hc⟩ := List.mem_flatten.1 hc
    obtain ⟨p, hp, hof⟩ := Outcome.exists_of_mem_mapM hacts hact
    obtain ⟨hp, howner⟩ := List.mem_filter.1 hp
    exact starts_of_actsOf (hsound.pieceAt?_of_mem hp) (beq_iff_eq.1 howner) hof hc

/-- What is proposed while a prompt waits is an answer that is on offer. -/
theorem answers_of_candidates {prompt : Prompt} (hprompt : m.pending = some prompt)
    (h : candidates m = .ok cs) (hc : c ∈ cs) :
    ∃ x, c = .chooseTarget prompt.player x ∧ (m.seat prompt.player).selection.allows x = true := by
  unfold candidates at h
  rw [hprompt] at h
  cases h
  obtain ⟨x, hx, rfl⟩ := Option.map_eq_some_iff.1 (Option.mem_toList.1 hc)
  refine ⟨x, rfl, ?_⟩
  obtain hhex | ⟨-, hcard⟩ := Option.or_eq_some_iff.1 hx
  · obtain ⟨hex, hhead, rfl⟩ := Option.map_eq_some_iff.1 hhex
    simpa [Selection.allows] using List.mem_of_mem_head? hhead
  · obtain ⟨id, hhead, rfl⟩ := Option.map_eq_some_iff.1 hcard
    simpa [Selection.allows] using List.mem_of_mem_head? hhead

/-- While a prompt waits, an answer is proposed. -/
theorem exists_candidate (hm : m.Reachable) {prompt : Prompt} (hprompt : m.pending = some prompt) :
    ∃ c, candidates m = .ok [c] := by
  have hoffers := (hm.prompted hprompt).offers
  unfold candidates answer
  rw [hprompt]
  dsimp only
  cases hhexes : (m.seat prompt.player).selection.hexes with
  | cons hex hexes => exact ⟨_, rfl⟩
  | nil =>
    cases hcards : (m.seat prompt.player).selection.cards with
    | cons id ids => exact ⟨_, rfl⟩
    | nil => simp [hhexes, hcards] at hoffers

end SelfPlay

namespace Match
variable {m m' : Match}

/-- The policy only proposes what is legal. What it proposes is carried out, or it waits for an
answer, or there is nothing to choose from; and while an answer is waited for, it proposes one. -/
theorem Reachable.candidates_legal (hm : m.Reachable) (hwinner : m.winner = none)
    (hhands : ∀ player, ((m.seat player).hand.map (·.id)).Nodup) :
    (∀ cs, SelfPlay.candidates m = .ok cs → ∀ c ∈ cs, ∀ m', m.submit c = .ok m' →
      (m'.refusal = none ∧ m'.pending = none) ∨
        (m'.refusal = none ∧ ∃ resumption, m'.pending = some ⟨m.turn, resumption⟩) ∨
          m'.refusal = some .noValidTargets) ∧
    (m.pending ≠ none → ∃ cs, SelfPlay.candidates m = .ok cs ∧ cs ≠ []) := by
  have hover : m.isOver = false := isOver_eq_false hwinner
  constructor
  · intro cs hcs c hc m' hsubmit
    obtain ⟨trace, htraced⟩ := SelfPlay.submitTraced_of_submit hsubmit
    have hends : ∀ {player resumption chosen}, player = m.turn → m.Legal player resumption →
        m.heard.attempt maxDepth player resumption chosen = .ok (m', trace) →
        (m'.refusal = none ∧ m'.pending = none) ∨
          (m'.refusal = none ∧ ∃ resumption, m'.pending = some ⟨m.turn, resumption⟩) ∨
            m'.refusal = some .noValidTargets := by
      rintro _ resumption chosen rfl hlegal hattempt
      have hlegal : m.heard.Legal m.turn resumption := hlegal.of_blank rfl
      exact ((attempted hattempt).of_legal rfl hm.board_sound hlegal).imp_right
        (Or.imp_left fun hwaits => ⟨hwaits.1, resumption, hwaits.2⟩)
    cases hpending : m.pending with
    | none =>
      obtain ⟨hturn, resumption, hresumption, hlegal⟩ :=
        SelfPlay.starts_of_candidates hm.board_sound hpending (hhands m.turn) hcs hc
      rw [submitTraced_start hover hpending hturn hresumption] at htraced
      exact hends rfl hlegal htraced
    | some prompt =>
      obtain ⟨x, rfl, hallows⟩ := SelfPlay.answers_of_candidates hpending hcs hc
      rw [submitTraced_answer hover hpending hallows] at htraced
      exact hends (hm.prompted hpending).turn (hm.legal_pending hpending) htraced
  · intro hpending
    obtain ⟨prompt, hprompt⟩ := Option.ne_none_iff_exists'.1 hpending
    obtain ⟨c, hc⟩ := SelfPlay.exists_candidate hm hprompt
    exact ⟨[c], hc, List.cons_ne_nil _ _⟩

/-- The policy plays a card that asks for any object, and then has an answer. -/
theorem Reachable.candidates_legal_solo : ∃ (m m' : Match) (cs : List Command),
    m.Reachable ∧ m.winner = none ∧ (∀ player, ((m.seat player).hand.map (·.id)).Nodup) ∧
    SelfPlay.candidates m = .ok [.playSolo] ∧ m.submit .playSolo = .ok m' ∧
    (∃ resumption, m'.pending = some ⟨m.turn, resumption⟩) ∧
    SelfPlay.candidates m' = .ok cs ∧ cs ≠ [] := by
  have hrun : ((MatchSetup.solo [.dealDamage (.choose (.piecesInPlay .any)) (.const 1)]).start.holds
      fun m => m.winner.isNone && decide (((m.seat .blue).hand.map (·.id)).Nodup) &&
        decide (((m.seat .orange).hand.map (·.id)).Nodup) &&
        (SelfPlay.candidates m).holds (· == [.playSolo]) &&
        (m.submit .playSolo).holds fun m' => m'.refusal.isNone && m'.pending.isSome &&
          m'.winner.isNone && decide (((m'.seat .blue).hand.map (·.id)).Nodup) &&
          decide (((m'.seat .orange).hand.map (·.id)).Nodup)) = true := by
    decide +kernel
  obtain ⟨m, hstart, hrun⟩ := Outcome.exists_of_holds hrun
  simp only [Bool.and_eq_true, Option.isNone_iff_eq_none, decide_eq_true_eq] at hrun
  obtain ⟨⟨⟨⟨hwinner, hblue⟩, horange⟩, hcandidates⟩, hplay⟩ := hrun
  obtain ⟨cs, hcs, heq⟩ := Outcome.exists_of_holds hcandidates
  obtain rfl := eq_of_beq heq
  obtain ⟨m', hsubmit, hrun⟩ := Outcome.exists_of_holds hplay
  simp only [Bool.and_eq_true, Option.isNone_iff_eq_none, decide_eq_true_eq] at hrun
  obtain ⟨⟨⟨⟨hrefusal, hasked⟩, hwinner'⟩, hblue'⟩, horange'⟩ := hrun
  have hpending : m'.pending ≠ none := Option.isSome_iff_ne_none.1 hasked
  have hm : m.Reachable := .start hstart
  have hhands : ∀ player, ((m.seat player).hand.map (·.id)).Nodup := fun player =>
    match player with
    | .blue => hblue
    | .orange => horange
  have hhands' : ∀ player, ((m'.seat player).hand.map (·.id)).Nodup := fun player =>
    match player with
    | .blue => hblue'
    | .orange => horange'
  obtain ⟨cs, hcs', hne⟩ := ((hm.submit hsubmit).candidates_legal hwinner' hhands').2 hpending
  refine ⟨m, m', cs, hm, hwinner, hhands, hcs, hsubmit, ?_, hcs', hne⟩
  obtain ⟨-, hnone⟩ | ⟨-, hwaits⟩ | hrefused :=
    (hm.candidates_legal hwinner hhands).1 _ hcs _ List.mem_cons_self m' hsubmit
  · exact absurd hnone hpending
  · exact hwaits
  · cases hrefusal.symm.trans hrefused

end Match
end HexDuel
