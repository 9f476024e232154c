import HexDuel.Proofs.Intact
import HexDuel.Proofs.Lasting

/-!
Which objects are condemned and which fall. Only a destruction marks an object so, and it ends with
the object off the board: between commands no object is marked.
-/

set_option autoImplicit false

namespace HexDuel

/-! ### Marked objects -/

namespace Board

/-- The destruction of the object is asked for. -/
def Condemns (b : Board) (id : PieceId) : Prop := ∃ p, b.get? id = some p ∧ p.condemned = true

/-- The destruction of the object is under way. -/
def Fells (b : Board) (id : PieceId) : Prop := ∃ p, b.get? id = some p ∧ p.falling = true

/-- Whatever is marked has been marked before. What falls may also be condemned meanwhile. -/
structure Spares (b b' : Board) : Prop where
  fells : ∀ id, b'.Fells id → b.Fells id
  condemns : ∀ id, b'.Condemns id → b.Condemns id ∨ b.Fells id

/-- No object is marked. -/
def Spared (b : Board) : Prop := ∀ id, ¬ b.Condemns id ∧ ¬ b.Fells id

end Board

/-- The marks of an object stay as they are. -/
def Piece.SameMarks (p q : Piece) : Prop := q.condemned = p.condemned ∧ q.falling = p.falling

namespace Piece.SameMarks

theorem refl (p : Piece) : p.SameMarks p := ⟨rfl, rfl⟩

theorem trans {p q r : Piece} (h : p.SameMarks q) (h' : q.SameMarks r) : p.SameMarks r :=
  ⟨h'.1.trans h.1, h'.2.trans h.2⟩

end Piece.SameMarks

namespace Board.Spares
variable {b b' b'' : Board}

theorem refl (b : Board) : b.Spares b := ⟨fun _ h => h, fun _ h => .inl h⟩

theorem trans (h : b.Spares b') (h' : b'.Spares b'') : b.Spares b'' where
  fells id hid := h.fells id (h'.fells id hid)
  condemns id hid := (h'.condemns id hid).elim (h.condemns id) fun hfells =>
    .inr (h.fells id hfells)

/-- Nothing else is on the board than has been there with the same marks, or what is unmarked. -/
theorem of_get? (h : ∀ id q, b'.get? id = some q →
    (q.condemned = false ∧ q.falling = false) ∨ ∃ p, b.get? id = some p ∧ p.SameMarks q) :
    b.Spares b' := by
  refine ⟨?_, ?_⟩
  · rintro id ⟨q, hq, hfalling⟩
    obtain ⟨-, hnot⟩ | ⟨p, hp, hmarks⟩ := h id q hq
    · exact absurd hfalling (by simp [hnot])
    · exact ⟨p, hp, hmarks.2 ▸ hfalling⟩
  · rintro id ⟨q, hq, hcondemned⟩
    obtain ⟨hnot, -⟩ | ⟨p, hp, hmarks⟩ := h id q hq
    · exact absurd hcondemned (by simp [hnot])
    · exact .inl ⟨p, hp, hmarks.1 ▸ hcondemned⟩

theorem of_becomes (h : b.Becomes Piece.SameMarks b') : b.Spares b' :=
  of_get? fun _ _ hq => .inr (h.get? hq)

theorem erase (b : Board) (id : PieceId) : b.Spares (b.erase id) := by
  refine of_get? fun k q hq => .inr ⟨q, ?_, .refl q⟩
  rw [get?_erase] at hq
  split at hq
  · cases hq
  · exact hq

theorem enter (b : Board) {p : Piece} (hp : p.condemned = false ∧ p.falling = false) :
    b.Spares (b.enter p) := by
  refine of_get? fun id q hq => ?_
  obtain ⟨-, rfl⟩ | hold := get?_enter hq
  · exact .inl hp
  · exact .inr ⟨q, hold, .refl q⟩

/-- What is on the board unmarked stays so. -/
theorem spared (h : b.Spares b') (hb : b.Spared) : b'.Spared := fun id =>
  ⟨fun hcondemns => (h.condemns id hcondemns).elim (hb id).1 (hb id).2,
    fun hfells => (hb id).2 (h.fells id hfells)⟩

end Board.Spares

/-! ### Acts -/

theorem Piece.Intact.sameMarks {p q : Piece} (h : p.Intact q) : p.SameMarks q :=
  ⟨h.condemned, h.falling⟩

/-- Upkeep leaves every object marked or not as before. -/
theorem Piece.upkept_sameMarks : Upkept SameMarks :=
  .of_rewritten (fun _ _ _ => .trans) fun p q h => by
    obtain ⟨_, _, _, _, _, rfl⟩ := h
    exact ⟨rfl, rfl⟩

theorem Board.Toured.spares {b b' : Board} (h : b.Toured b') : b.Spares b' := by
  cases h with
  | stays h => exact .of_becomes (h.mono fun _ _ => Piece.Intact.sameMarks)
  | comes => exact .enter b ⟨rfl, rfl⟩

variable {s s' : Stage}

theorem spares_of_tended (h : Relation.ReflTransGen Tending s s') :
    s.game.board.Spares s'.game.board := .of_becomes (Piece.upkept_sameMarks.tended h)

/-- The object is off the board, and no other has been marked. -/
theorem TakenOff.spares {id : PieceId} {p : Piece} (h : TakenOff s id p s') :
    s.game.board.Spares s'.game.board ∧ s'.game.board.get? id = none := by
  have hupkeep := Piece.upkept_sameMarks.tended h.removed.tended
  refine ⟨(Board.Spares.erase s.game.board id).trans (.of_becomes hupkeep), ?_⟩
  refine hupkeep.get?_eq_none ?_
  rw [Stage.map, Match.changeBoard, Board.get?_erase, if_pos rfl]

/-- A destruction ends with the object off the board, whatever has come about meanwhile. -/
theorem Buried.spares {id : PieceId} (h : Buried id s s') :
    s.game.board.Spares s'.game.board ∧ s'.game.board.get? id = none := by
  cases h with
  | gone h => exact ⟨.refl _, h⟩
  | @discard p mid h =>
    rw [mid.board_discarded]
    exact h.spares

/-- No other object is marked when the destruction of one begins. -/
theorem Stage.Dooms.get?_topple {id k : PieceId} {start : Stage} (h : s.Dooms id start)
    (card : Card) (hk : k ≠ id) :
    (start.topple id card).game.board.get? k = s.game.board.get? k := by
  have hfall : (start.topple id card).game.board.get? k = start.game.board.get? k :=
    Board.get?_modify_of_ne _ hk _
  rw [hfall]
  obtain rfl | rfl := h
  · rfl
  · exact Board.get?_modify_of_ne _ hk _

/-- Another object is only marked when it has been so before the destruction began. -/
theorem Buried.spares_destroyed {id : PieceId} {card : Card} {start fallen : Stage}
    (hdooms : s.Dooms id start)
    (hfallen : (start.topple id card).game.board.Spares fallen.game.board)
    (h : Buried id fallen s') : s.game.board.Spares s'.game.board := by
  obtain ⟨hburied, hgone⟩ := h.spares
  have hall := hfallen.trans hburied
  have hother : ∀ {k p}, s'.game.board.get? k = some p →
      (start.topple id card).game.board.get? k = s.game.board.get? k := by
    intro k p hp
    refine hdooms.get?_topple card ?_
    rintro rfl
    exact nomatch hgone.symm.trans hp
  refine ⟨fun k hfells => ?_, fun k hcondemns => ?_⟩
  · have hbefore := hall.fells k hfells
    obtain ⟨q, hq, -⟩ := hfells
    unfold Board.Fells at hbefore ⊢
    rwa [hother hq] at hbefore
  · have hbefore := hall.condemns k hcondemns
    obtain ⟨q, hq, -⟩ := hcondemns
    unfold Board.Condemns Board.Fells at hbefore ⊢
    rwa [hother hq] at hbefore

theorem spares_condemn {id : PieceId}
    (hfalls : ∀ p, s.game.board.get? id = some p → p.falling = true) :
    s.game.board.Spares (s.game.board.modify id (·.condemn)) := by
  refine ⟨fun k => ?_, fun k => ?_⟩
  · rintro ⟨q, hq, hfalling⟩
    rw [Board.get?_modify] at hq
    obtain ⟨p, hp, rfl⟩ := Option.map_eq_some_iff.1 hq
    refine ⟨p, hp, ?_⟩
    split at hfalling <;> exact hfalling
  · rintro ⟨q, hq, hcondemned⟩
    rw [Board.get?_modify] at hq
    obtain ⟨p, hp, rfl⟩ := Option.map_eq_some_iff.1 hq
    split at hcondemned
    · rename_i hk
      obtain rfl := eq_of_beq hk
      exact .inr ⟨p, hp, hfalls p hp⟩
    · exact .inl ⟨p, hp, hcondemned⟩

/-- Whatever an act marks it also takes off the board, however destructions are nested. -/
theorem Act.spares (h : Act s s') : s.game.board.Spares s'.game.board := by
  induction h with
  | refl s => exact .refl _
  | trans _ _ ih ih' => exact ih.trans ih'
  | errand h => exact h.toured.spares
  | reapply h => exact spares_of_tended (Play.goes_reapply _ _ _ h)
  | install id sentence duration h => exact spares_of_tended (Play.goes_grant _ _ _ _ _ _ _ h)
  | tickDurations s =>
    exact .of_becomes
      (Piece.upkept_sameMarks.withdrawAll (f := (·.countDown)) (fun _ => ⟨rfl, rfl⟩) _ s.game)
  | condemn id hfalls => exact spares_condemn hfalls
  | destroy hdooms _ hburied ih => exact hburied.spares_destroyed hdooms ih
  | @giveBack id p s mid h =>
    rw [mid.board_returned]
    exact h.spares.1
  | spawn _ hresolve _ hinquired =>
    have hfound := Resolving.inquired_of_resolve hresolve
    have hboard := board_of_inquired (hfound.trans hinquired)
    exact hboard ▸ (Stage.toured_place _ _ _ _ _).spares

/-! ### Commands -/

namespace Match

theorem lasting_spared : Lasting fun m => m.board.Spared where
  retold := by
    rintro m _ ⟨n, rfl⟩ hm
    exact hm
  acts _ _ h hs := h.spares.spared hs

/-- Between commands no object's destruction is asked for or under way. -/
theorem Reachable.spared {m : Match} (hm : m.Reachable) : m.board.Spared := by
  refine lasting_spared.reachable (fun s m h id => ?_) hm
  have hmarks : ∀ p, m.board.get? id = some p → p.condemned = false ∧ p.falling = false := by
    intro p hp
    obtain ⟨-, rfl⟩ | ⟨-, rfl⟩ := MatchSetup.core_of_start h hp <;> exact ⟨rfl, rfl⟩
  refine ⟨?_, ?_⟩
  · rintro ⟨p, hp, hcondemned⟩
    exact absurd hcondemned (by simp [(hmarks p hp).1])
  · rintro ⟨p, hp, hfalling⟩
    exact absurd hfalling (by simp [(hmarks p hp).2])

end Match
end HexDuel
