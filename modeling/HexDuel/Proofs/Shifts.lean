import HexDuel.Proofs.Deeds

/-!
What deeds do to the board and to what the players are told. Most of what a deed does leaves every
object where it is, with its card and without new abilities. What is left are few kinds of shifts:
an object comes, goes or changes cells, it is given an ability, a player is asked, or a turn ends.
-/

set_option autoImplicit false

namespace HexDuel

/-! ### Objects that stay -/

/-- The same object with its card on its cell, and without abilities that it did not have. -/
structure Piece.Remains (p q : Piece) : Prop where
  id : q.id = p.id
  card : q.card = p.card
  hex : q.hex = p.hex
  passives : (q.passives.map (·.id)).Sublist (p.passives.map (·.id))
  triggers : (q.triggers.map (·.id)).Sublist (p.triggers.map (·.id))

namespace Piece.Remains

theorem refl (p : Piece) : p.Remains p := ⟨rfl, rfl, rfl, .refl _, .refl _⟩

theorem trans {p q r : Piece} (h : p.Remains q) (h' : q.Remains r) : p.Remains r :=
  ⟨h'.id.trans h.id, h'.card.trans h.card, h'.hex.trans h.hex, h'.passives.trans h.passives,
    h'.triggers.trans h.triggers⟩

end Piece.Remains

theorem Piece.ids_changeFirst (id : AbilityId) {f : Passive → Passive} (hf : ∀ a, (f a).id = a.id)
    (as : List Passive) : (changeFirst id f as).map (·.id) = as.map (·.id) := by
  induction as with
  | nil => rfl
  | cons a as ih =>
    unfold changeFirst
    split
    · simp only [List.map_cons, hf]
    · simp only [List.map_cons, ih]

theorem Piece.remains_setGrants (p : Piece) (source : AbilityId) (disabled : Bool) :
    p.Remains (p.setGrants source disabled) := by
  have hpassives : (p.setGrants source disabled).passives.map (·.id) = p.passives.map (·.id) := by
    simp only [setGrants, List.map_map]
    congr 1
    funext a
    simp only [Function.comp]
    split <;> rfl
  have htriggers : (p.setGrants source disabled).triggers.map (·.id) = p.triggers.map (·.id) := by
    simp only [setGrants, List.map_map]
    congr 1
    funext t
    simp only [Function.comp]
    split <;> rfl
  exact ⟨rfl, rfl, rfl, hpassives ▸ .refl _, htriggers ▸ .refl _⟩

theorem Piece.remains_changePassive (p : Piece) (id : AbilityId) {f : Passive → Passive}
    (hf : ∀ a, (f a).id = a.id) : p.Remains (p.changePassive id f) := by
  have hpassives : (p.changePassive id f).passives.map (·.id) = p.passives.map (·.id) :=
    ids_changeFirst id hf p.passives
  exact ⟨rfl, rfl, rfl, hpassives ▸ .refl _, .refl _⟩

theorem Inscription.remains {f : Piece → Piece} (h : Inscription f) (p : Piece) :
    p.Remains (f p) := by
  cases h with
  | setGrants source disabled => exact p.remains_setGrants source disabled
  | setApplied id applied => exact p.remains_changePassive id fun _ => rfl
  | adjust => simp only [Piece.adjust]; split <;> exact ⟨rfl, rfl, rfl, .refl _, .refl _⟩
  | addStatus => simp only [Piece.addStatus]; split <;> exact ⟨rfl, rfl, rfl, .refl _, .refl _⟩
  | addActivation =>
    simp only [Piece.addActivation]; split <;> exact ⟨rfl, rfl, rfl, .refl _, .refl _⟩

theorem Mark.remains {f : Piece → Piece} (h : Mark f) (p : Piece) : p.Remains (f p) := by
  cases h with
  | swap => simp only [Piece.swap]; split <;> exact ⟨rfl, rfl, rfl, .refl _, .refl _⟩
  | _ => exact ⟨rfl, rfl, rfl, .refl _, .refl _⟩

theorem Passive.id_tick {a b : Passive} (h : a.tick = some b) : b.id = a.id := by
  unfold tick at h
  split at h <;> cases h
  rfl

theorem Trigger.id_tick {t u : Trigger} (h : t.tick = some u) : u.id = t.id := by
  unfold tick at h
  split at h <;> cases h
  rfl

/-- What passes a filter that may change the entries, but not what `f` makes of them. -/
theorem List.map_filterMap_sublist {α β : Type} {f : α → β} {g : α → Option α}
    (h : ∀ a b, g a = some b → f b = f a) (as : List α) :
    ((as.filterMap g).map f).Sublist (as.map f) := by
  induction as with
  | nil => exact .slnil
  | cons a as ih =>
    cases hg : g a with
    | none =>
      rw [List.filterMap_cons_none hg]
      exact ih.cons _
    | some b =>
      rw [List.filterMap_cons_some hg, List.map_cons, List.map_cons, h a b hg]
      exact ih.cons_cons _

theorem Piece.remains_countDown (p : Piece) : p.Remains p.countDown :=
  ⟨rfl, rfl, rfl, List.map_filterMap_sublist (fun _ _ => Passive.id_tick) _,
    List.map_filterMap_sublist (fun _ _ => Trigger.id_tick) _⟩

theorem Piece.remains_endTurnOf (c : Color) (p : Piece) : p.Remains (p.endTurnOf c) := by
  unfold endTurnOf
  split <;> exact ⟨rfl, rfl, rfl, .refl _, .refl _⟩

theorem Piece.remains_beginTurnOf (c : Color) (p : Piece) : p.Remains (p.beginTurnOf c) := by
  unfold beginTurnOf
  split <;> exact ⟨rfl, rfl, rfl, .refl _, .refl _⟩

theorem Piece.remains_dropDisabled (p : Piece) : p.Remains p.dropDisabled :=
  ⟨rfl, rfl, rfl, List.filter_sublist.map _, List.filter_sublist.map _⟩

/-- Every object stays on the board and becomes one of those it may become. -/
def Board.Becomes (R : Piece → Piece → Prop) (b b' : Board) : Prop :=
  ∃ g : PieceId × Piece → Piece, (∀ e : PieceId × Piece, R e.2 (g e)) ∧
    b' = ⟨b.entries.map fun e => (e.1, g e)⟩

namespace Board.Becomes
variable {R : Piece → Piece → Prop} {b b' b'' : Board}

theorem refl (hrefl : ∀ p, R p p) (b : Board) : b.Becomes R b :=
  ⟨fun e => e.2, fun e => hrefl e.2, by simp⟩

theorem trans (htrans : ∀ p q r, R p q → R q r → R p r) (h : b.Becomes R b')
    (h' : b'.Becomes R b'') : b.Becomes R b'' := by
  obtain ⟨g, hg, rfl⟩ := h
  obtain ⟨g', hg', rfl⟩ := h'
  refine ⟨fun e => g' (e.1, g e), fun e => htrans _ _ _ (hg e) (hg' (e.1, g e)), ?_⟩
  simp [Function.comp_def]

theorem mapPieces {f : Piece → Piece} (hf : ∀ p, R p (f p)) (b : Board) :
    b.Becomes R (b.mapPieces f) := ⟨fun e => f e.2, fun e => hf e.2, rfl⟩

theorem modify (hrefl : ∀ p, R p p) {f : Piece → Piece} (hf : ∀ p, R p (f p)) (b : Board)
    (id : PieceId) : b.Becomes R (b.modify id f) := by
  refine ⟨fun e => if e.1 == id then f e.2 else e.2, fun e => ?_, modify_eq_map b id f⟩
  dsimp only
  split
  · exact hf e.2
  · exact hrefl e.2

theorem mono {S : Piece → Piece → Prop} (hRS : ∀ p q, R p q → S p q) (h : b.Becomes R b') :
    b.Becomes S b' := by
  obtain ⟨g, hg, heq⟩ := h
  exact ⟨g, fun e => hRS _ _ (hg e), heq⟩

/-- What an object has been. -/
theorem back (h : b.Becomes R b') {e : PieceId × Piece} (he : e ∈ b'.entries) :
    ∃ p, (e.1, p) ∈ b.entries ∧ R p e.2 := by
  obtain ⟨g, hg, rfl⟩ := h
  obtain ⟨e, hmem, rfl⟩ := List.mem_map.1 he
  exact ⟨e.2, hmem, hg e⟩

end Board.Becomes

/-- Every object stays in its place. -/
def Board.Remains (b b' : Board) : Prop := b.Becomes Piece.Remains b'

namespace Board.Remains
variable {b b' b'' : Board}

theorem refl (b : Board) : b.Remains b := Becomes.refl .refl b

theorem of_eq (h : b' = b) : b.Remains b' := h ▸ refl b

theorem trans (h : b.Remains b') (h' : b'.Remains b'') : b.Remains b'' :=
  Becomes.trans (fun _ _ _ => .trans) h h'

theorem mapPieces {f : Piece → Piece} (hf : ∀ p : Piece, p.Remains (f p)) (b : Board) :
    b.Remains (b.mapPieces f) := Becomes.mapPieces hf b

theorem modify {f : Piece → Piece} (hf : ∀ p : Piece, p.Remains (f p)) (b : Board) (id : PieceId) :
    b.Remains (b.modify id f) := Becomes.modify .refl hf b id

end Board.Remains

/-- Takes back what the ability wrote on an object. -/
def Passive.clear (a : Passive) (p : Piece) : Piece :=
  match a.effect with
  | .adjust .. => p.dropAdjustments a.id
  | .status _ => p.dropStatuses a.id
  | .grant _ => p.setGrants a.id true
  | .activated .. => p.dropActivations a.id

theorem Passive.remains_clear (a : Passive) (p : Piece) : p.Remains (a.clear p) := by
  unfold clear
  split
  · exact ⟨rfl, rfl, rfl, .refl _, .refl _⟩
  · exact ⟨rfl, rfl, rfl, .refl _, .refl _⟩
  · exact p.remains_setGrants a.id true
  · exact ⟨rfl, rfl, rfl, .refl _, .refl _⟩

namespace Match

theorem board_withdraw (a : Passive) (m : Match) :
    (m.withdraw a).board = m.board.mapPieces a.clear := by
  obtain ⟨id, source, targets, effect, duration, disabled, applied⟩ := a
  cases effect <;> rfl

theorem becomes_withdrawApplied {R : Piece → Piece → Prop} (hrefl : ∀ p, R p p) (a : Passive)
    (hclear : ∀ p, R p (a.clear p)) (m : Match) :
    m.board.Becomes R (m.withdrawApplied a).board := by
  unfold withdrawApplied
  split
  · rw [board_withdraw]
    exact .mapPieces hclear m.board
  · exact .refl hrefl m.board

theorem becomes_withdrawAll {R : Piece → Piece → Prop} (hrefl : ∀ p, R p p)
    (htrans : ∀ p q r, R p q → R q r → R p r) (hclear : ∀ (a : Passive) p, R p (a.clear p))
    (as : List Passive) (m : Match) : m.board.Becomes R (m.withdrawAll as).board := by
  induction as generalizing m with
  | nil => exact .refl hrefl m.board
  | cons a as ih =>
    exact .trans htrans (becomes_withdrawApplied hrefl a (hclear a) m) (ih (m.withdrawApplied a))

theorem remains_withdrawApplied (a : Passive) (m : Match) :
    m.board.Remains (m.withdrawApplied a).board :=
  becomes_withdrawApplied .refl a a.remains_clear m

theorem remains_withdrawAll (as : List Passive) (m : Match) :
    m.board.Remains (m.withdrawAll as).board :=
  becomes_withdrawAll .refl (fun _ _ _ => .trans) Passive.remains_clear as m

theorem remains_dropDisabled (m : Match) : m.board.Remains m.dropDisabled.board :=
  (Board.Remains.mapPieces Piece.remains_dropDisabled m.board).trans (remains_withdrawAll _ _)

theorem remains_tickDurations (m : Match) : m.board.Remains m.tickDurations.board :=
  (Board.Remains.mapPieces Piece.remains_countDown m.board).trans (remains_withdrawAll _ _)

theorem remains_takeControl (owner : Color) (id : PieceId) (m : Match) :
    m.board.Remains (Resolving.takeControl owner id m).board := by
  unfold Resolving.takeControl
  split
  · exact .refl m.board
  · split
    · exact .refl m.board
    · exact .modify (f := (·.joining owner)) (fun _ => ⟨rfl, rfl, rfl, .refl _, .refl _⟩)
        m.board id

/-! ### Numbers -/

theorem lastId_withdrawAll (as : List Passive) (m : Match) :
    (m.withdrawAll as).lastId = m.lastId := by
  induction as generalizing m with
  | nil => rfl
  | cons a as ih =>
    refine (ih (m.withdrawApplied a)).trans ?_
    unfold withdrawApplied
    split
    · unfold withdraw
      split <;> rfl
    · rfl

theorem lastId_takeTop (m : Match) (c : Color) : (m.takeTop c).lastId = m.lastId := by
  unfold takeTop
  dsimp only
  split <;> rfl

theorem lastId_drawTimes (c : Color) (count : Nat) (m : Match) :
    (Play.drawTimes c count m).lastId = m.lastId := by
  induction count generalizing m with
  | zero => rfl
  | succ count ih =>
    unfold Play.drawTimes
    split
    · rfl
    · refine (ih (m.drawTop c)).trans ?_
      unfold drawTop
      split
      · rfl
      · exact lastId_takeTop m c

theorem lastId_burnTimes (c : Color) (count : Nat) (m : Match) :
    (Play.burnTimes c count m).lastId = m.lastId := by
  induction count generalizing m with
  | zero => rfl
  | succ count ih =>
    unfold Play.burnTimes
    split
    · rfl
    · refine (ih _).trans ?_
      change (m.burnTop c).lastId = m.lastId
      unfold burnTop
      split
      · rfl
      · exact lastId_takeTop m c

theorem lastId_chime (m : Match) (c : Color) : (m.chime c).lastId = m.lastId := by
  unfold chime
  split <;> rfl

theorem lastId_checkVictory (m : Match) : m.checkVictory.lastId = m.lastId := by
  unfold checkVictory
  split
  · rfl
  · split
    · unfold declareWinner
      dsimp only
      split <;> rfl
    · rfl

end Match

/-- No change of a match touches the last number that was handed out. -/
theorem Edit.lastId {f : Match → Match} (h : Edit f) (m : Match) : (f m).lastId = m.lastId := by
  cases h with
  | moveTo => unfold Resolving.moveTo; split <;> rfl
  | takeControl =>
    unfold Resolving.takeControl
    split
    · rfl
    · split <;> rfl
  | withdrawApplied a => exact Match.lastId_withdrawAll [a] m
  | dropDisabled => exact Match.lastId_withdrawAll _ _
  | tickDurations => exact Match.lastId_withdrawAll _ _
  | adjustCostOf => unfold Resolving.adjustCostOf; split <;> rfl
  | discardFromHand =>
    unfold Resolving.discardFromHand
    split
    · rfl
    · split <;> rfl
  | giveBack => unfold Play.giveBack; split <;> rfl
  | deal c count =>
    exact (Match.lastId_burnTimes c _ _).trans (Match.lastId_drawTimes c _ m)
  | checkVictory => exact Match.lastId_checkVictory m
  | chime c => exact Match.lastId_chime m c
  | _ => rfl

/-- The last number that was handed out never goes back. -/
theorem Step.lastId_le {asks ends : Bool} {s s' : Stage} (h : Step asks ends s s') :
    s.game.lastId ≤ s'.game.lastId := by
  cases h with
  | edit hf => exact Nat.le_of_eq (hf.lastId s.game).symm
  | number => exact Nat.le_succ _
  | consult _ hc => cases hc <;> exact Nat.le_refl _
  | _ => exact Nat.le_refl _

theorem Steps.lastId_le {asks ends : Bool} {s s' : Stage} (h : Steps asks ends s s') :
    s.game.lastId ≤ s'.game.lastId :=
  h.keeps (I := fun st => s.game.lastId ≤ st.game.lastId)
    (fun _ _ hstep hle => Nat.le_trans hle hstep.lastId_le) (Nat.le_refl _)

/-! ### Shifts -/

/-- Nobody is told anything new, and every object stays in its place. -/
structure Stage.Still (s s' : Stage) : Prop where
  notices : s'.game.notices = s.game.notices
  questions : questions s'.trace = questions s.trace
  lastId : s.game.lastId ≤ s'.game.lastId
  board : s.game.board.Remains s'.game.board

/-- The cells on which an object may come to stand. -/
inductive Stage.Opens (s : Stage) (hex : Hex) : Prop where
  | known : s.Knows hex → s.Opens hex
  | walk {start : Hex} {hexes : List Hex} :
    s.game.movementHexes start = .ok hexes → hex ∈ hexes → s.Opens hex
  | placement {player : Color} {type : CardType} :
    hex ∈ s.game.placementHexes player type → s.Opens hex

/-- A change of the board, or of what the players are told. -/
inductive Shift (s : Stage) : Stage → Prop where
  | still {s' : Stage} : s.Still s' → Shift s s'
  /- Objects. -/
  | place (card : Card) {hex : Hex} (owner : Color) (justPlayed : Bool) : s.Takes hex →
    s.Opens hex → Shift s (s.place card hex owner justPlayed)
  | erase (id : PieceId) : Shift s (s.map (·.changeBoard (·.erase id)))
  | move (id : PieceId) {hex : Hex} {f : Piece → Piece} : (∀ p : Piece, p.Remains (f p)) →
    s.Opens hex → Shift s (s.map (·.changePiece id fun p => (f p).moveTo hex))
  | addPassive (id : PieceId) {a : Passive} : a.id = s.game.lastId + 1 →
    Shift s (s.number.map (·.changePiece id (·.addPassive a)))
  | addTrigger (id : PieceId) {t : Trigger} : t.id = s.game.lastId + 1 →
    Shift s (s.number.map (·.changePiece id (·.addTrigger t)))
  /- Players. -/
  | consult {c : Collection} {ctx : Context} {x : Collection × Context} {s' : Stage} :
    (∀ h ∈ c.cells, s.Knows h) → Resolving.Consulted c ctx s x s' → Shift s s'
  | leave (c : Color) :
    Shift s ⟨(s.game.setSelection c .none).setStatus c "", .turnEnded c :: s.trace⟩
  | handOver (c : Color) : (s.game.seat c.opponent).selection = .none →
    Shift s (s.map fun m => { m with turn := c })

def Shifts : Stage → Stage → Prop := Relation.ReflTransGen Shift

namespace Shifts
variable {s s' : Stage}

theorem single (h : Shift s s') : Shifts s s' := Relation.ReflTransGen.single h

theorem trans {s'' : Stage} (h : Shifts s s') (h' : Shifts s' s'') : Shifts s s'' :=
  Relation.ReflTransGen.trans h h'

/-- What every shift keeps is kept throughout. -/
theorem keeps {I : Stage → Prop} (hshift : ∀ s s', Shift s s' → I s → I s') (h : Shifts s s')
    (hs : I s) : I s' := by
  induction h with
  | refl => exact hs
  | tail _ hlast ih => exact hshift _ _ hlast ih

/-- A change that leaves every object in its place. -/
theorem edit {f : Match → Match} (hf : Edit f) (hboard : s.game.board.Remains (f s.game).board) :
    Shifts s (s.map f) :=
  .single (.still ⟨hf.silent.notices s.game, rfl, Nat.le_of_eq (hf.lastId s.game).symm, hboard⟩)

/-- A change of something else. -/
theorem apart {f : Match → Match} (hf : Edit f) (hboard : (f s.game).board = s.game.board) :
    Shifts s (s.map f) := edit hf (.of_eq hboard)

theorem note {h : Happening} (hplain : h.isQuestion = false) :
    Shifts s ⟨s.game, h :: s.trace⟩ := by
  refine .single (.still ⟨rfl, ?_, Nat.le_refl _, .refl _⟩)
  simp [questions, hplain]

theorem number : Shifts s s.number :=
  .single (.still ⟨rfl, rfl, Nat.le_succ _, .refl _⟩)

theorem inquiry (h : Inquiry s s') : Shifts s s' := by
  cases h with
  | random g => exact apart (.random g) rfl
  | picked => exact note rfl
  | addLog c text cards => exact apart (.addLog c text cards) rfl
  | number => exact number
  | consult hknown hc => exact .single (.consult hknown hc)

theorem tending (h : Tending s s') : Shifts s s' := by
  cases h with
  | inquiry h => exact inquiry h
  | withdrawApplied a => exact edit (.withdrawApplied a) (Match.remains_withdrawApplied a s.game)
  | dropDisabled => exact edit .dropDisabled (Match.remains_dropDisabled s.game)
  | inscribe id hf => exact edit (.piece id hf.edit) (.modify hf.remains s.game.board id)
  | adjustCostOf ability adjustment id =>
    exact apart (.adjustCostOf ability adjustment id) (Match.board_adjustCostOf _ _ _ _)
  | addPassive id ha => exact .single (.addPassive id ha)
  | addTrigger id ht => exact .single (.addTrigger id ht)

theorem tended (h : Relation.ReflTransGen Tending s s') : Shifts s s' := by
  induction h with
  | refl => exact .refl
  | tail _ hlast ih => exact ih.trans (tending hlast)

theorem removed {id : PieceId} {p : Piece} (h : Removed s id p s') :
    Shifts s (s'.map (·.checkVictory)) :=
  (Shifts.single (.erase id)).trans
    ((tended h.tended).trans (apart .checkVictory (Match.board_checkVictory s'.game)))

theorem turnover {f : Match → Match} (h : Turnover f) : Shifts s (s.map f) := by
  refine apart h.edit ?_
  cases h with
  | checkVictory => exact Match.board_checkVictory s.game
  | chime c => exact Match.board_chime s.game c
  | _ => rfl

theorem moveTo (id : PieceId) {hex : Hex} (hknown : s.Knows hex) :
    Shifts s (s.map (Resolving.moveTo id hex)) := by
  have hmap : s.map (Resolving.moveTo id hex) = ⟨Resolving.moveTo id hex s.game, s.trace⟩ := rfl
  rw [hmap]
  unfold Resolving.moveTo
  split
  · exact .single (.move id (fun p => .refl p) (.known hknown))
  · exact .refl

end Shifts

theorem Deed.shifts {s s' : Stage} (h : Deed s s') : Shifts s s' := by
  cases h with
  | tending h => exact .tending h
  | note h hplain => exact .note (by cases h <;> first | rfl | cases hplain)
  | ending => exact .note rfl
  | turnover hf => exact .turnover hf
  | mark id hf => exact .edit (.piece id hf.edit) (.modify hf.remains s.game.board id)
  | takeControl owner id =>
    exact .edit (.takeControl owner id) (Match.remains_takeControl owner id s.game)
  | endTurnOf c => exact .edit (.endTurnOf c) (.mapPieces (Piece.remains_endTurnOf c) _)
  | beginTurnOf c => exact .edit (.beginTurnOf c) (.mapPieces (Piece.remains_beginTurnOf c) _)
  | tickDurations => exact .edit .tickDurations (Match.remains_tickDurations s.game)
  | moveTo id hex hknown => exact .moveTo id hknown
  | walk id made hm hg =>
    exact .single (.move id (f := fun p => { p with movesMade := made, movedThisTurn := true })
      (fun _ => ⟨rfl, rfl, rfl, .refl _, .refl _⟩) (.walk hm hg))
  | spawn card owner htakes hknown => exact .single (.place card owner false htakes (.known hknown))
  | @play player id card type hex hheld htakes hplacement =>
    exact (Shifts.apart (.dropFromHand player id) rfl).trans
      (.single (.place card player true ⟨htakes.onBoard, htakes.free, htakes.unused⟩
        (.placement hplacement)))
  | @spend player id card =>
    exact (Shifts.apart (.dropFromHand player id) rfl).trans
      (.apart (.discard player card.reset) rfl)
  | bury hr => exact (Shifts.removed hr).trans (.apart (.discard _ _) rfl)
  | giveBack hr =>
    exact (Shifts.removed hr).trans (.apart (.giveBack _ _) (Match.board_giveBack _ _ _))
  | reprint c id cost stats => exact .apart (.reprint c id cost stats) rfl
  | deal c count => exact .apart (.deal c count) (Match.board_deal c count s.game)
  | leave c => exact .single (.leave c)
  | handOver c hnone => exact .single (.handOver c hnone)

theorem Deeds.shifts {s s' : Stage} (h : Deeds s s') : Shifts s s' := by
  induction h with
  | refl => exact .refl
  | tail _ hlast ih => exact ih.trans hlast.shifts

end HexDuel
