import HexDuel.Proofs.Acts
import HexDuel.Proofs.Shifts

/-!
What acts leave alone. An errand touches nothing that abilities hold on an object, and upkeep
touches nothing else: whatever one kind of change of objects keeps can be read off here.
-/

set_option autoImplicit false

namespace HexDuel

/-! ### What stands under an id -/

namespace Board

theorem get?_map (b : Board) (g : PieceId × Piece → Piece) (id : PieceId) :
    (⟨b.entries.map fun e => (e.1, g e)⟩ : Board).get? id =
      (b.get? id).map fun p => g (id, p) := by
  obtain ⟨es⟩ := b
  induction es with
  | nil => rfl
  | cons e es ih =>
    obtain ⟨k, p⟩ := e
    simp only [get?, List.map_cons, List.lookup_cons] at ih ⊢
    split
    · rename_i hk
      obtain rfl := eq_of_beq hk
      rfl
    · exact ih

theorem get?_mapPieces (b : Board) (f : Piece → Piece) (id : PieceId) :
    (b.mapPieces f).get? id = (b.get? id).map f := get?_map b (fun e => f e.2) id

theorem get?_erase (b : Board) (id k : PieceId) :
    (b.erase id).get? k = if k = id then none else b.get? k := by
  obtain ⟨es⟩ := b
  simp only [get?, erase]
  induction es with
  | nil => simp
  | cons e es ih =>
    obtain ⟨i, p⟩ := e
    by_cases hi : i = id
    · subst hi
      rw [List.filter_cons_of_neg (by simp), ih]
      by_cases hk : k = i
      · simp [hk]
      · rw [if_neg hk, if_neg hk, List.lookup_cons, beq_false_of_ne hk]
    · rw [List.filter_cons_of_pos (by simpa using hi), List.lookup_cons, List.lookup_cons, ih]
      by_cases hk : k = i
      · subst hk
        simp [hi]
      · rw [beq_false_of_ne hk]

theorem lookup_insertEntry (id k : PieceId) (p : Piece) (es : List (PieceId × Piece)) :
    (insertEntry id p es).lookup k = if k = id then some p else es.lookup k := by
  have hhead : ∀ rest, List.lookup k ((id, p) :: rest) =
      if k = id then some p else rest.lookup k := by
    intro rest
    rw [List.lookup_cons]
    by_cases hk : k = id
    · simp [hk]
    · rw [beq_false_of_ne hk, if_neg hk]
  induction es with
  | nil => exact hhead []
  | cons e es ih =>
    obtain ⟨i, q⟩ := e
    unfold insertEntry
    split
    · exact hhead _
    · split
      · rename_i hid
        subst hid
        rw [hhead, List.lookup_cons]
        by_cases hk : k = id
        · rw [if_pos hk, if_pos hk]
        · rw [beq_false_of_ne hk]
      · rename_i hid
        rw [List.lookup_cons, List.lookup_cons, ih]
        by_cases hk : k = i
        · subst hk
          simp [Ne.symm hid]
        · rw [beq_false_of_ne hk]

/-- Nothing else than the new object is new. -/
theorem get?_enter {b : Board} {p q : Piece} {k : PieceId} (h : (b.enter p).get? k = some q) :
    k = p.id ∧ q = p ∨ b.get? k = some q := by
  unfold enter place? at h
  split at h
  · exact .inr h
  · have hlookup : (insertEntry p.id p b.entries).lookup k = some q := h
    rw [lookup_insertEntry] at hlookup
    split at hlookup
    · exact .inl ⟨‹k = p.id›, (Option.some.inj hlookup).symm⟩
    · exact .inr hlookup

theorem Becomes.get? {R : Piece → Piece → Prop} {b b' : Board} (h : b.Becomes R b') {id : PieceId}
    {q : Piece} (hq : b'.get? id = some q) : ∃ p, b.get? id = some p ∧ R p q := by
  obtain ⟨g, hg, rfl⟩ := h
  rw [get?_map] at hq
  obtain ⟨p, hp, rfl⟩ := Option.map_eq_some_iff.1 hq
  exact ⟨p, hp, hg (id, p)⟩

/-- Every object is still there. -/
theorem Becomes.get?_of_some {R : Piece → Piece → Prop} {b b' : Board} (h : b.Becomes R b')
    {id : PieceId} {p : Piece} (hp : b.get? id = some p) : ∃ q, b'.get? id = some q ∧ R p q := by
  obtain ⟨g, hg, rfl⟩ := h
  exact ⟨g (id, p), by rw [get?_map, hp]; rfl, hg (id, p)⟩

theorem Becomes.get?_eq_none {R : Piece → Piece → Prop} {b b' : Board} (h : b.Becomes R b')
    {id : PieceId} (hid : b.get? id = none) : b'.get? id = none := by
  obtain ⟨g, -, rfl⟩ := h
  rw [get?_map, hid]
  rfl

theorem get?_enter_of_some {b : Board} {k : PieceId} {q : Piece} (p : Piece)
    (h : b.get? k = some q) : (b.enter p).get? k = some q := by
  unfold enter place?
  split
  · exact h
  · rename_i hfits
    simp only [Bool.or_eq_true, not_or, Bool.not_eq_true] at hfits
    have hk : k ≠ p.id := by
      rintro rfl
      exact absurd hfits.2 (by simp [contains, h])
    have hlookup : (insertEntry p.id p b.entries).lookup k = b.get? k := by
      rw [lookup_insertEntry, if_neg hk]
      rfl
    exact hlookup.trans h

end Board

/-! ### Errands -/

/-- The object with its card and all that abilities hold on it, and no nearer to its destruction. -/
structure Piece.Intact (p q : Piece) : Prop where
  id : q.id = p.id
  card : q.card = p.card
  passives : q.passives = p.passives
  triggers : q.triggers = p.triggers
  activations : q.activations = p.activations
  statuses : q.statuses = p.statuses
  adjustments : q.adjustments = p.adjustments
  condemned : q.condemned = p.condemned
  falling : q.falling = p.falling

namespace Piece.Intact

theorem refl (p : Piece) : p.Intact p := ⟨rfl, rfl, rfl, rfl, rfl, rfl, rfl, rfl, rfl⟩

end Piece.Intact

theorem Mark.intact {f : Piece → Piece} (h : Mark f) (hsteady : Steady f) (p : Piece) :
    p.Intact (f p) := by
  obtain ⟨hcondemned, hfalling⟩ := hsteady p
  cases h with
  | swap first second =>
    simp only [Piece.swap] at hcondemned hfalling ⊢
    split <;> exact ⟨rfl, rfl, rfl, rfl, rfl, rfl, rfl, rfl, rfl⟩
  | _ => exact ⟨rfl, rfl, rfl, rfl, rfl, rfl, rfl, hcondemned, hfalling⟩

theorem Turnover.board {f : Match → Match} (h : Turnover f) (m : Match) :
    (f m).board = m.board := by
  cases h with
  | checkVictory => exact Match.board_checkVictory m
  | chime c => exact Match.board_chime m c
  | _ => rfl

variable {s s' : Stage}

theorem Resolving.Consulted.board {c : Collection} {ctx : Context} {x : Collection × Context}
    (h : Resolving.Consulted c ctx s x s') : s'.game.board = s.game.board := by
  cases h <;> rfl

theorem Inquiry.board (h : Inquiry s s') : s'.game.board = s.game.board := by
  cases h with
  | consult _ hc => exact hc.board
  | _ => rfl

theorem board_of_inquired (h : Relation.ReflTransGen Inquiry s s') :
    s'.game.board = s.game.board := by
  induction h with
  | refl => rfl
  | tail _ hlast ih => exact hlast.board.trans ih

/-- Where the card of an object goes that is off the board is of no matter to the board. -/
theorem Stage.board_discarded (s : Stage) (c : Color) (card : Card) :
    (s.map fun m => m.checkVictory.discard c card).game.board = s.game.board :=
  Match.board_checkVictory s.game

theorem Stage.board_returned (s : Stage) (c : Color) (card : Card) :
    (s.map fun m => Play.giveBack c card m.checkVictory).game.board = s.game.board :=
  (Match.board_giveBack c card _).trans (Match.board_checkVictory s.game)

/-- What an errand makes of the board: at most one object comes, and nothing is written. -/
inductive Board.Toured (b : Board) : Board → Prop where
  | stays {b' : Board} : b.Becomes Piece.Intact b' → Toured b b'
  | comes (id : PieceId) (card : Card) (owner : Color) (hex : Hex) (justPlayed : Bool) :
    Toured b (b.enter { Piece.new id card.reset owner hex with justPlayed := justPlayed })

theorem Errand.toured (h : Errand s s') : s.game.board.Toured s'.game.board := by
  have hsame : ∀ {b : Board}, b = s.game.board → s.game.board.Toured b := by
    rintro _ rfl
    exact .stays (.refl .refl _)
  have hmodify : ∀ id {f : Piece → Piece}, (∀ p : Piece, p.Intact (f p)) →
      s.game.board.Toured (s.game.board.modify id f) := fun id _ hf =>
    .stays (.modify .refl hf s.game.board id)
  cases h with
  | inquiry h => exact hsame h.board
  | turnover hf => exact hsame (hf.board s.game)
  | mark id hf hsteady => exact hmodify id (hf.intact hsteady)
  | takeControl owner id =>
    change s.game.board.Toured (Resolving.takeControl owner id s.game).board
    unfold Resolving.takeControl
    split
    · exact hsame rfl
    · split
      · exact hsame rfl
      · exact hmodify id (f := (·.joining owner)) fun _ =>
          ⟨rfl, rfl, rfl, rfl, rfl, rfl, rfl, rfl, rfl⟩
  | endTurnOf c =>
    refine .stays (.mapPieces (f := (·.endTurnOf c)) (fun p => ?_) s.game.board)
    unfold Piece.endTurnOf
    split <;> exact ⟨rfl, rfl, rfl, rfl, rfl, rfl, rfl, rfl, rfl⟩
  | beginTurnOf c =>
    refine .stays (.mapPieces (f := (·.beginTurnOf c)) (fun p => ?_) s.game.board)
    unfold Piece.beginTurnOf
    split <;> exact ⟨rfl, rfl, rfl, rfl, rfl, rfl, rfl, rfl, rfl⟩
  | moveTo id hex =>
    change s.game.board.Toured (Resolving.moveTo id hex s.game).board
    unfold Resolving.moveTo
    split
    · exact hmodify id (f := (·.moveTo hex)) fun _ => ⟨rfl, rfl, rfl, rfl, rfl, rfl, rfl, rfl, rfl⟩
    · exact hsame rfl
  | @walk id made _ goal =>
    exact hmodify id (f := (·.walk made goal)) fun _ =>
      ⟨rfl, rfl, rfl, rfl, rfl, rfl, rfl, rfl, rfl⟩
  | @play player id card _ hex => exact .comes (s.game.lastId + 1) card player hex true
  | deal c count => exact hsame (Match.board_deal c count s.game)
  | _ => exact hsame rfl

theorem Stage.toured_place (s : Stage) (card : Card) (hex : Hex) (owner : Color)
    (justPlayed : Bool) : s.game.board.Toured (s.place card hex owner justPlayed).game.board :=
  .comes (s.game.lastId + 1) card owner hex justPlayed

/-! ### Upkeep -/

/-- A way in which an object may change, of which all that upkeep makes of objects is one. -/
structure Upkept (R : Piece → Piece → Prop) : Prop where
  refl : ∀ p, R p p
  trans : ∀ p q r, R p q → R q r → R p r
  inscribe : ∀ {f}, Inscription f → ∀ p, R p (f p)
  clear : ∀ (a : Passive) p, R p (a.clear p)
  dropDisabled : ∀ p : Piece, R p p.dropDisabled
  addPassive : ∀ (a : Passive) p, a.disabled = false → R p (p.addPassive a)
  addTrigger : ∀ (t : Trigger) p, t.disabled = false → R p (p.addTrigger t)

/-- The same object with other abilities, and with other writing on it. -/
def Piece.Rewritten (p q : Piece) : Prop :=
  ∃ passives triggers activations statuses adjustments, q = { p with
    passives := passives
    triggers := triggers
    activations := activations
    statuses := statuses
    adjustments := adjustments }

namespace Piece.Rewritten

theorem refl (p : Piece) : p.Rewritten p := ⟨_, _, _, _, _, rfl⟩

theorem trans {p q r : Piece} (h : p.Rewritten q) (h' : q.Rewritten r) : p.Rewritten r := by
  obtain ⟨_, _, _, _, _, rfl⟩ := h
  obtain ⟨_, _, _, _, _, rfl⟩ := h'
  exact ⟨_, _, _, _, _, rfl⟩

end Piece.Rewritten

/-- Upkeep makes nothing else of an object. -/
theorem Piece.upkept_rewritten : Upkept Rewritten where
  refl := .refl
  trans _ _ _ := .trans
  inscribe h p := by
    cases h with
    | adjust => simp only [adjust]; split <;> exact ⟨_, _, _, _, _, rfl⟩
    | addStatus => simp only [addStatus]; split <;> exact ⟨_, _, _, _, _, rfl⟩
    | addActivation => simp only [addActivation]; split <;> exact ⟨_, _, _, _, _, rfl⟩
    | _ => exact ⟨_, _, _, _, _, rfl⟩
  clear a p := by
    unfold Passive.clear
    split <;> exact ⟨_, _, _, _, _, rfl⟩
  dropDisabled _ := ⟨_, _, _, _, _, rfl⟩
  addPassive _ _ _ := ⟨_, _, _, _, _, rfl⟩
  addTrigger _ _ _ := ⟨_, _, _, _, _, rfl⟩

namespace Upkept
variable {R : Piece → Piece → Prop}

/-- What looks at none of that is kept up. -/
theorem of_rewritten (htrans : ∀ p q r, R p q → R q r → R p r)
    (h : ∀ p q : Piece, p.Rewritten q → R p q) : Upkept R where
  refl p := h p p (.refl p)
  trans := htrans
  inscribe hf p := h _ _ (Piece.upkept_rewritten.inscribe hf p)
  clear a p := h _ _ (Piece.upkept_rewritten.clear a p)
  dropDisabled p := h _ _ (Piece.upkept_rewritten.dropDisabled p)
  addPassive a p ha := h _ _ (Piece.upkept_rewritten.addPassive a p ha)
  addTrigger t p ht := h _ _ (Piece.upkept_rewritten.addTrigger t p ht)

theorem withdrawAll (hR : Upkept R) {f : Piece → Piece} (hf : ∀ p, R p (f p)) (as : List Passive)
    (m : Match) : m.board.Becomes R ((m.changeBoard (·.mapPieces f)).withdrawAll as).board :=
  .trans hR.trans (.mapPieces hf m.board) (Match.becomes_withdrawAll hR.refl hR.trans hR.clear as _)

theorem tending (hR : Upkept R) (h : Tending s s') : s.game.board.Becomes R s'.game.board := by
  cases h with
  | inquiry h => exact h.board ▸ .refl hR.refl _
  | withdrawApplied a => exact Match.becomes_withdrawApplied hR.refl a (hR.clear a) s.game
  | dropDisabled => exact hR.withdrawAll hR.dropDisabled _ s.game
  | inscribe id hf => exact .modify hR.refl (hR.inscribe hf) s.game.board id
  | adjustCostOf ability adjustment id =>
    exact (Match.board_adjustCostOf ability adjustment id s.game).symm ▸ .refl hR.refl _
  | @addPassive id a _ henabled =>
    exact .modify hR.refl (f := (·.addPassive a)) (fun p => hR.addPassive a p henabled)
      s.game.board id
  | @addTrigger id t _ henabled =>
    exact .modify hR.refl (f := (·.addTrigger t)) (fun p => hR.addTrigger t p henabled)
      s.game.board id

theorem tended (hR : Upkept R) (h : Relation.ReflTransGen Tending s s') :
    s.game.board.Becomes R s'.game.board := by
  induction h with
  | refl => exact .refl hR.refl _
  | tail _ hlast ih => exact .trans hR.trans ih (hR.tending hlast)

end Upkept
end HexDuel
