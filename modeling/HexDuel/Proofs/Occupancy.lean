import HexDuel.Proofs.Asking

/-!
Where the objects stand. Every object is kept under its own id, on a cell of the board that it has
to itself, and what a player names is then one of the candidates.
-/

set_option autoImplicit false

namespace HexDuel

/-! ### Cells that can be reached -/

namespace Hex

theorem onBoard_of_mem_search {enter : Hex → Bool} {steps : Nat} {found layer : List Hex} {h : Hex}
    (hm : h ∈ search enter steps found layer) : h ∈ found ∨ h.onBoard = true := by
  induction steps generalizing found layer with
  | zero => exact .inl hm
  | succ steps ih =>
    unfold search at hm
    dsimp only at hm
    split at hm
    · exact .inl hm
    · obtain hfound | hboard := ih hm
      · obtain hfound | hnext := List.mem_append.1 hfound
        · exact .inl hfound
        · exact .inr (onBoard_of_mem_nextLayer hnext)
      · exact .inr hboard

end Hex

namespace Match

theorem goal_of_mem_movementHexes {m : Match} {start goal : Hex} {hexes : List Hex}
    (h : m.movementHexes start = .ok hexes) (hg : goal ∈ hexes) :
    goal.onBoard = true ∧ m.board.occupied goal = false := by
  unfold movementHexes at h
  cases hp : m.board.pieceAt? start with
  | none => rw [hp] at h; cases h; cases hg
  | some p =>
    rw [hp] at h
    cases hleft : p.movesLeft with
    | error f => simp only [hleft] at h; cases h
    | ok left =>
      simp only [hleft] at h
      cases h
      obtain ⟨hfound, hfree⟩ := List.mem_filter.1 hg
      have hfree : m.board.occupied goal = false := by simpa using hfree
      refine ⟨?_, hfree⟩
      obtain hstart | hboard := Hex.onBoard_of_mem_search hfound
      · obtain rfl := List.mem_singleton.1 hstart
        simp [Board.occupied, hp] at hfree
      · exact hboard

end Match

/-! ### Boards -/

namespace Board

/-- Every object is kept under its own id, on the board, and no two share an id or a cell. -/
structure Sound (b : Board) : Prop where
  keyed : ∀ e ∈ b.entries, e.2.id = e.1
  onBoard : ∀ e ∈ b.entries, e.2.hex.onBoard = true
  apart : b.entries.Pairwise fun e e' => e.1 ≠ e'.1 ∧ e.2.hex ≠ e'.2.hex

theorem mem_of_get? {b : Board} {id : PieceId} {p : Piece} (h : b.get? id = some p) :
    (id, p) ∈ b.entries := by
  obtain ⟨xs, ys, he, _⟩ := List.lookup_eq_some_iff.1 h
  simp [he]

/-- Every object is found under its id. -/
theorem get?_of_mem {b : Board} (hb : b.ids.Nodup) {e : PieceId × Piece} (he : e ∈ b.entries) :
    b.get? e.1 = some e.2 := by
  obtain ⟨xs, ys, hsplit⟩ := List.append_of_mem he
  refine List.lookup_eq_some_iff.2 ⟨xs, ys, hsplit, fun e' he' => ?_⟩
  rw [ids, hsplit, List.map_append] at hb
  have hne := (List.nodup_append.1 hb).2.2 e'.1 (List.mem_map_of_mem he') e.1 List.mem_cons_self
  simpa using Ne.symm hne

theorem get?_modify (b : Board) (id k : PieceId) (f : Piece → Piece) :
    (b.modify id f).get? k = (b.get? k).map fun p => if k == id then f p else p := by
  obtain ⟨es⟩ := b
  induction es with
  | nil => rfl
  | cons e es ih =>
    obtain ⟨i, p⟩ := e
    have hcons : (⟨(i, p) :: es⟩ : Board).modify id f =
        ⟨(i, if i == id then f p else p) :: ((⟨es⟩ : Board).modify id f).entries⟩ := by
      simp only [modify, List.map_cons]
      split <;> rfl
    unfold get? at ih ⊢
    rw [hcons, List.lookup_cons, List.lookup_cons]
    cases hk : k == i with
    | true =>
      obtain rfl := eq_of_beq hk
      rfl
    | false => exact ih

theorem get?_modify_self (b : Board) (id : PieceId) (f : Piece → Piece) :
    (b.modify id f).get? id = (b.get? id).map f := by
  rw [get?_modify]
  simp

theorem get?_modify_of_ne (b : Board) {id k : PieceId} (hk : k ≠ id) (f : Piece → Piece) :
    (b.modify id f).get? k = b.get? k := by
  rw [get?_modify, beq_false_of_ne hk]
  exact Option.map_id'

theorem mem_of_pieceAt? {b : Board} {hex : Hex} {p : Piece} (h : b.pieceAt? hex = some p) :
    p ∈ b.pieces ∧ p.hex = hex :=
  ⟨List.mem_of_find?_eq_some h, by simpa using List.find?_some h⟩

theorem free_of_not_occupied {b : Board} {hex : Hex} (h : b.occupied hex = false) :
    ∀ e ∈ b.entries, e.2.hex ≠ hex := by
  intro e he
  have hnone : b.pieceAt? hex = none := by simpa [occupied] using h
  simpa using List.find?_eq_none.1 hnone e.2 (List.mem_map_of_mem he)

theorem ne_of_not_contains {b : Board} {id : PieceId} (h : b.contains id = false) :
    ∀ e ∈ b.entries, e.1 ≠ id := by
  intro e he hid
  have hnone : b.entries.lookup id = none := by simpa [contains, get?] using h
  have hne := List.lookup_eq_none_iff.1 hnone e he
  simp [hid] at hne

theorem mem_insertEntry {id : PieceId} {p : Piece} {es : List (PieceId × Piece)}
    {e : PieceId × Piece} (h : e ∈ insertEntry id p es) : e = (id, p) ∨ e ∈ es := by
  induction es with
  | nil => exact .inl (List.mem_singleton.1 h)
  | cons entry es ih =>
    unfold insertEntry at h
    split at h
    · exact List.mem_cons.1 h
    · split at h
      · exact (List.mem_cons.1 h).imp_right (List.mem_cons_of_mem _)
      · obtain rfl | hrest := List.mem_cons.1 h
        · exact .inr List.mem_cons_self
        · exact (ih hrest).imp_right (List.mem_cons_of_mem _)

/-- A new object comes in before those with higher ids. -/
theorem pairwise_insertEntry {id : PieceId} {p : Piece} {es : List (PieceId × Piece)}
    (h : es.Pairwise fun e e' => e.1 < e'.1) :
    (insertEntry id p es).Pairwise fun e e' => e.1 < e'.1 := by
  induction es with
  | nil => exact List.pairwise_singleton _ _
  | cons entry es ih =>
    obtain ⟨hfirst, hrest⟩ := List.pairwise_cons.1 h
    unfold insertEntry
    split
    · rename_i hlt
      refine List.pairwise_cons.2 ⟨fun e he => ?_, h⟩
      obtain rfl | he := List.mem_cons.1 he
      · exact hlt
      · exact Nat.lt_trans hlt (hfirst e he)
    · split
      · rename_i hid
        subst hid
        exact List.pairwise_cons.2 ⟨hfirst, hrest⟩
      · rename_i hle hid
        refine List.pairwise_cons.2 ⟨fun e he => ?_, ih hrest⟩
        obtain rfl | he := mem_insertEntry he
        · exact Nat.lt_of_le_of_ne (Nat.not_lt.1 hle) (Ne.symm hid)
        · exact hfirst e he

theorem mem_enter {b : Board} {p : Piece} {e : PieceId × Piece} (h : e ∈ (b.enter p).entries) :
    e = (p.id, p) ∨ e ∈ b.entries := by
  unfold enter place? at h
  split at h
  · exact .inr h
  · exact mem_insertEntry h

theorem perm_insertEntry {id : PieceId} {p : Piece} {es : List (PieceId × Piece)}
    (h : ∀ e ∈ es, e.1 ≠ id) : (insertEntry id p es).Perm ((id, p) :: es) := by
  induction es with
  | nil => exact .refl _
  | cons e es ih =>
    have hne : ¬ id = e.1 := fun heq => h e List.mem_cons_self heq.symm
    unfold insertEntry
    simp only [hne, if_false]
    split
    · exact .refl _
    · have hrest := ih fun e' he' => h e' (List.mem_cons_of_mem _ he')
      exact (hrest.cons e).trans (.swap _ _ _)

theorem perm_enter {b : Board} {p : Piece} (hfree : b.occupied p.hex = false)
    (hnew : b.contains p.id = false) : (b.enter p).entries.Perm ((p.id, p) :: b.entries) := by
  have hplace : b.enter p = b.insert p.id p := by simp [enter, place?, hfree, hnew]
  rw [hplace]
  exact perm_insertEntry (ne_of_not_contains hnew)

theorem modify_eq_map (b : Board) (id : PieceId) (f : Piece → Piece) :
    b.modify id f = ⟨b.entries.map fun e => (e.1, if e.1 == id then f e.2 else e.2)⟩ := by
  simp only [modify, mk.injEq]
  congr 1
  funext e
  split <;> rfl

/-- Objects that change without changing ids stay sound when each keeps its cell to itself. -/
theorem Sound.map {b : Board} (h : b.Sound) {g : PieceId × Piece → Piece}
    (hid : ∀ e, (g e).id = e.2.id) (hboard : ∀ e ∈ b.entries, (g e).hex.onBoard = true)
    (hapart : ∀ e ∈ b.entries, ∀ e' ∈ b.entries, e.1 ≠ e'.1 → e.2.hex ≠ e'.2.hex →
      (g e).hex ≠ (g e').hex) :
    Sound ⟨b.entries.map fun e => (e.1, g e)⟩ := by
  refine ⟨?_, ?_, ?_⟩
  · intro e he
    obtain ⟨e, hmem, rfl⟩ := List.mem_map.1 he
    exact (hid e).trans (h.keyed e hmem)
  · intro e he
    obtain ⟨e, hmem, rfl⟩ := List.mem_map.1 he
    exact hboard e hmem
  · refine List.pairwise_map.2 (h.apart.imp_of_mem ?_)
    intro e e' he he' hne
    exact ⟨hne.1, hapart e he e' he' hne.1 hne.2⟩

theorem Sound.mapPieces {b : Board} (h : b.Sound) {f : Piece → Piece}
    (hf : ∀ p, (f p).id = p.id ∧ (f p).hex = p.hex) : (b.mapPieces f).Sound := by
  refine h.map (g := fun e => f e.2) (fun e => (hf e.2).1) ?_ ?_
  · intro e he
    rw [(hf e.2).2]
    exact h.onBoard e he
  · intro e _ e' _ _ hne
    rw [(hf e.2).2, (hf e'.2).2]
    exact hne

theorem Sound.modify {b : Board} (h : b.Sound) (id : PieceId) {f : Piece → Piece}
    (hf : ∀ p, (f p).id = p.id ∧ (f p).hex = p.hex) : (b.modify id f).Sound := by
  rw [modify_eq_map]
  refine h.map (fun e => ?_) (fun e he => ?_) (fun e _ e' _ _ hne => ?_)
  · split
    · exact (hf e.2).1
    · rfl
  · split
    · rw [(hf e.2).2]
      exact h.onBoard e he
    · exact h.onBoard e he
  · have hsame : ∀ e : PieceId × Piece, (if e.1 == id then f e.2 else e.2).hex = e.2.hex := by
      intro e
      split
      · exact (hf e.2).2
      · rfl
    rw [hsame e, hsame e']
    exact hne

/-- An object that goes to a free cell. -/
theorem Sound.move {b : Board} (h : b.Sound) (id : PieceId) {hex : Hex} {f : Piece → Piece}
    (hf : ∀ p, (f p).id = p.id ∧ (f p).hex = hex) (hboard : hex.onBoard = true)
    (hfree : b.occupied hex = false) : (b.modify id f).Sound := by
  have hothers := free_of_not_occupied hfree
  rw [modify_eq_map]
  refine h.map (fun e => ?_) (fun e he => ?_) (fun e he e' he' hne hhex => ?_)
  · split
    · exact (hf e.2).1
    · rfl
  · split
    · rw [(hf e.2).2]
      exact hboard
    · exact h.onBoard e he
  -- Two objects can meet only if one of them is the one that moves.
  · by_cases hid : e.1 = id
    · have hid' : ¬ e'.1 = id := fun heq => hne (hid.trans heq.symm)
      simpa [hid, hid', (hf e.2).2] using (hothers e' he').symm
    · by_cases hid' : e'.1 = id
      · simpa [hid, hid', (hf e'.2).2] using hothers e he
      · simpa [hid, hid'] using hhex

theorem Sound.erase {b : Board} (h : b.Sound) (id : PieceId) : (b.erase id).Sound where
  keyed e he := h.keyed e ((List.mem_filter.1 he).1)
  onBoard e he := h.onBoard e ((List.mem_filter.1 he).1)
  apart := h.apart.filter _

theorem Sound.enter {b : Board} (h : b.Sound) {p : Piece} (hboard : p.hex.onBoard = true) :
    (b.enter p).Sound := by
  unfold Board.enter place?
  split
  · exact h
  · rename_i hfits
    simp only [Bool.or_eq_true, not_or, Bool.not_eq_true] at hfits
    have hfree := free_of_not_occupied hfits.1
    have hnew := ne_of_not_contains hfits.2
    have hperm := perm_insertEntry (p := p) hnew
    have hmem : ∀ e ∈ (b.insert p.id p).entries, e = (p.id, p) ∨ e ∈ b.entries := by
      intro e he
      simpa using hperm.mem_iff.1 he
    refine ⟨?_, ?_, ?_⟩
    · intro e he
      obtain rfl | he := hmem e he
      · rfl
      · exact h.keyed e he
    · intro e he
      obtain rfl | he := hmem e he
      · exact hboard
      · exact h.onBoard e he
    · refine (hperm.pairwise_iff ?_).2 (List.pairwise_cons.2 ⟨?_, h.apart⟩)
      · exact fun hne => ⟨hne.1.symm, hne.2.symm⟩
      · exact fun e he => ⟨(hnew e he).symm, (hfree e he).symm⟩

/-- Of the objects on a sound board only one stands on a cell. -/
theorem Sound.eq_of_hex {b : Board} (h : b.Sound) {e e' : PieceId × Piece} (he : e ∈ b.entries)
    (he' : e' ∈ b.entries) : e.2.hex = e'.2.hex → e = e' := by
  have hall := List.Pairwise.forall_of_forall_of_flip
    (R := fun e e' : PieceId × Piece => e.2.hex = e'.2.hex → e = e') (l := b.entries)
    (fun _ _ _ => rfl) (h.apart.imp fun hne heq => (hne.2 heq).elim)
    (h.apart.imp fun hne heq => (hne.2 heq.symm).elim)
  exact hall he he'

theorem Sound.idAt?_eq {b : Board} (h : b.Sound) {id : PieceId} {p : Piece}
    (hp : b.get? id = some p) : b.idAt? p.hex = some id := by
  have hmem := mem_of_get? hp
  cases hat : b.pieceAt? p.hex with
  | none => exact absurd rfl (free_of_not_occupied (by simp [occupied, hat]) (id, p) hmem)
  | some q =>
    obtain ⟨hq, hhex⟩ := mem_of_pieceAt? hat
    obtain ⟨e, he, rfl⟩ := List.mem_map.1 hq
    have heq : e = (id, p) := h.eq_of_hex he hmem hhex
    subst heq
    simp only [idAt?, hat, Option.map_some, Option.some.injEq]
    exact h.keyed (id, p) hmem

end Board

/-! ### Changes -/

namespace Match

theorem board_foldl {α : Type} {f : α → Match → Match} (hf : ∀ a m, (f a m).board = m.board)
    (as : List α) (m : Match) : (as.foldl (fun m a => f a m) m).board = m.board := by
  induction as generalizing m with
  | nil => rfl
  | cons a as ih => exact (ih (f a m)).trans (hf a m)

theorem board_discardFromHand (id : CardId) (m : Match) :
    (Resolving.discardFromHand id m).board = m.board := by
  unfold Resolving.discardFromHand
  split
  · rfl
  · split <;> rfl

theorem board_adjustCostOf (ability : AbilityId) (adjustment : Adjustment) (id : CardId)
    (m : Match) : (Resolving.adjustCostOf ability adjustment id m).board = m.board := by
  unfold Resolving.adjustCostOf
  split <;> rfl

theorem board_takeTop (m : Match) (c : Color) : (m.takeTop c).board = m.board := by
  unfold takeTop
  dsimp only
  split <;> rfl

theorem board_drawTop (m : Match) (c : Color) : (m.drawTop c).board = m.board := by
  unfold drawTop
  split
  · rfl
  · exact board_takeTop m c

theorem board_burnTop (m : Match) (c : Color) : (m.burnTop c).board = m.board := by
  unfold burnTop
  split
  · rfl
  · exact board_takeTop m c

theorem board_drawTimes (c : Color) (count : Nat) (m : Match) :
    (Play.drawTimes c count m).board = m.board := by
  induction count generalizing m with
  | zero => rfl
  | succ count ih =>
    unfold Play.drawTimes
    split
    · rfl
    · exact (ih _).trans (board_drawTop m c)

theorem board_burnTimes (c : Color) (count : Nat) (m : Match) :
    (Play.burnTimes c count m).board = m.board := by
  induction count generalizing m with
  | zero => rfl
  | succ count ih =>
    unfold Play.burnTimes
    split
    · rfl
    · exact (ih _).trans (board_burnTop m c)

theorem board_deal (c : Color) (count : Nat) (m : Match) :
    (Play.deal c count m).board = m.board :=
  (board_burnTimes c _ _).trans (board_drawTimes c _ m)

theorem board_giveBack (c : Color) (card : Card) (m : Match) :
    (Play.giveBack c card m).board = m.board := by
  unfold Play.giveBack
  split <;> rfl

theorem board_checkVictory (m : Match) : m.checkVictory.board = m.board := by
  unfold checkVictory
  split
  · rfl
  · split
    · unfold declareWinner
      dsimp only
      split <;> rfl
    · rfl

theorem board_chime (m : Match) (c : Color) : (m.chime c).board = m.board := by
  unfold chime
  split <;> rfl

theorem sound_withdraw (a : Passive) {m : Match} (hm : m.board.Sound) :
    (m.withdraw a).board.Sound := by
  unfold withdraw
  split
  · exact hm.mapPieces (f := (·.dropAdjustments a.id)) fun _ => ⟨rfl, rfl⟩
  · exact hm.mapPieces (f := (·.dropStatuses a.id)) fun _ => ⟨rfl, rfl⟩
  · exact hm.mapPieces (f := (·.setGrants a.id true)) fun _ => ⟨rfl, rfl⟩
  · exact hm.mapPieces (f := (·.dropActivations a.id)) fun _ => ⟨rfl, rfl⟩

theorem sound_withdrawApplied (a : Passive) {m : Match} (hm : m.board.Sound) :
    (m.withdrawApplied a).board.Sound := by
  unfold withdrawApplied
  split
  · exact sound_withdraw a hm
  · exact hm

theorem sound_withdrawAll (as : List Passive) {m : Match} (hm : m.board.Sound) :
    (m.withdrawAll as).board.Sound := by
  induction as generalizing m with
  | nil => exact hm
  | cons a as ih => exact ih (sound_withdrawApplied a hm)

end Match

/-- Every change of a match leaves its board sound. -/
theorem Edit.sound {f : Match → Match} (h : Edit f) {m : Match} (hm : m.board.Sound) :
    (f m).board.Sound := by
  cases h with
  | piece id hf => exact hm.modify id hf.place_eq
  | enter p hboard => exact hm.enter hboard
  | erase id => exact hm.erase id
  | moveTo id hex =>
    unfold Resolving.moveTo
    split
    · rename_i hfits
      simp only [Bool.and_eq_true, Bool.not_eq_true'] at hfits
      exact hm.move id (fun _ => ⟨rfl, rfl⟩) hfits.1 hfits.2
    · exact hm
  | takeControl owner id =>
    unfold Resolving.takeControl
    split
    · exact hm
    · split
      · exact hm
      · exact hm.modify id fun _ => ⟨rfl, rfl⟩
  | endTurnOf c => exact hm.mapPieces fun p => by unfold Piece.endTurnOf; split <;> exact ⟨rfl, rfl⟩
  | beginTurnOf c =>
    exact hm.mapPieces fun p => by unfold Piece.beginTurnOf; split <;> exact ⟨rfl, rfl⟩
  | withdrawApplied a => exact Match.sound_withdrawApplied a hm
  | dropDisabled => exact Match.sound_withdrawAll _ (hm.mapPieces fun _ => ⟨rfl, rfl⟩)
  | tickDurations => exact Match.sound_withdrawAll _ (hm.mapPieces fun _ => ⟨rfl, rfl⟩)
  | adjustCostOf => rwa [Match.board_adjustCostOf]
  | discardFromHand => rwa [Match.board_discardFromHand]
  | giveBack => rwa [Match.board_giveBack]
  | deal => rwa [Match.board_deal]
  | checkVictory => rwa [Match.board_checkVictory]
  | chime => rwa [Match.board_chime]
  | _ => exact hm

variable {asks ends : Bool} {s s' : Stage}

theorem Step.sound (h : Step asks ends s s') (hs : s.game.board.Sound) : s'.game.board.Sound := by
  cases h with
  | edit hf => exact hf.sound hs
  | walk id made hm hg =>
    obtain ⟨hboard, hfree⟩ := Match.goal_of_mem_movementHexes hm hg
    exact hs.move id (fun _ => ⟨rfl, rfl⟩) hboard hfree
  | consult _ hc => cases hc <;> exact hs
  | _ => exact hs

theorem Steps.sound (h : Steps asks ends s s') (hs : s.game.board.Sound) :
    s'.game.board.Sound :=
  h.keeps (I := fun st => st.game.board.Sound) (fun _ _ => Step.sound) hs

/-! ### What a named target stands for -/

namespace Resolving

/-- A target that a player may name out of a collection. -/
def Exposes (b : Board) : Collection → Choice → Prop
  | .pieces ids, .hex h =>
    ∃ id ∈ ids, ∃ p, b.get? id = some p ∧ p.hex = h ∧ p.justPlayed = false
  | .hexes xs, .hex h => h ∈ xs ∧ ∀ p, b.pieceAt? h = some p → p.justPlayed = false
  | .cards xs, .card id => ∃ c ∈ xs, c.id = id
  | _, _ => False

/-- A candidate by itself, or what stands on a cell that is a candidate. -/
def Supplies (b : Board) : Collection → Collection → Prop
  | .pieces ids, found => ∃ id ∈ ids, found = .pieces [id]
  | .hexes xs, found =>
    ∃ h ∈ xs, found = .hexes [h] ∧ b.pieceAt? h = none ∨
      ∃ p, b.pieceAt? h = some p ∧ found = .pieces [p.id]
  | .cards xs, found => ∃ c ∈ xs, found = .cards [c]
  | .players _, _ => False

theorem allows_offer_iff (b : Board) (c : Collection) (choice : Choice) :
    (offer b c).allows choice = true ↔ Exposes b c choice := by
  cases c with
  | players xs => cases choice <;> simp [offer, Selection.allows, Selection.none, Exposes]
  | cards xs => cases choice <;> simp [offer, Selection.allows, Selection.none, Exposes]
  | pieces ids =>
    cases choice with
    | card id => simp [offer, Selection.allows, Selection.none, Exposes]
    | hex h =>
      simp only [offer, Selection.allows, Exposes, List.contains_iff_mem, List.mem_map,
        List.mem_filter, List.mem_filterMap, Bool.not_eq_true']
      constructor
      · rintro ⟨p, ⟨⟨id, hid, hp⟩, hplayed⟩, hhex⟩
        exact ⟨id, hid, p, hp, hhex, hplayed⟩
      · rintro ⟨id, hid, p, hp, hhex, hplayed⟩
        exact ⟨p, ⟨⟨id, hid, hp⟩, hplayed⟩, hhex⟩
  | hexes xs =>
    cases choice with
    | card id => simp [offer, Selection.allows, Selection.none, Exposes]
    | hex h =>
      simp only [offer, Selection.allows, Exposes, List.contains_iff_mem, List.mem_filter]
      cases b.pieceAt? h <;> simp

theorem supplies_named {m : Match} (hm : m.board.Sound) {c : Collection} {choice : Choice}
    (h : Exposes m.board c choice) : Supplies m.board c (named m c choice) := by
  cases c with
  | players xs => cases choice <;> cases h
  | cards xs =>
    cases choice with
    | hex hex => cases h
    | card id =>
      obtain ⟨a, ha, rfl⟩ := h
      cases hfound : xs.find? (·.id == a.id) with
      | none => simpa using List.find?_eq_none.1 hfound a ha
      | some a' => exact ⟨a', List.mem_of_find?_eq_some hfound, by simp [named, findCard, hfound]⟩
  | pieces ids =>
    cases choice with
    | card id => cases h
    | hex hex =>
      obtain ⟨id, hid, p, hp, rfl, _⟩ := h
      exact ⟨id, hid, by simp only [named, hm.idAt?_eq hp]⟩
  | hexes xs =>
    cases choice with
    | card id => cases h
    | hex hex =>
      refine ⟨hex, h.1, ?_⟩
      cases hp : m.board.pieceAt? hex with
      | none => exact .inl ⟨by simp [named, Board.idAt?, hp], rfl⟩
      | some p => exact .inr ⟨p, rfl, by simp [named, Board.idAt?, hp]⟩

end Resolving
end HexDuel
