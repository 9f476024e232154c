import HexDuel.Proofs.Intact
import HexDuel.Proofs.Lasting

/-!
What every object keeps. An object that comes is new, errands touch nothing that abilities hold on
it, and all else that becomes of it is what upkeep makes of objects: what holds of new objects and
goes by nothing but that holds of all objects of every match.
-/

set_option autoImplicit false

namespace HexDuel

/-- It holds of an object that comes, and neither upkeep nor anything else makes it false. -/
structure Kept (P : Piece → Prop) : Prop where
  comes : ∀ id (card : Card) owner hex justPlayed,
    P { Piece.new id card.reset owner hex with justPlayed := justPlayed }
  intact : ∀ p q : Piece, p.Intact q → P p → P q
  upkept : Upkept fun p q => P p → P q
  countDown : ∀ p : Piece, P p → P p.countDown
  condemn : ∀ p : Piece, P p → P p.condemn
  fall : ∀ p : Piece, P p → P p.fall

namespace Board

/-- It holds of every object. -/
def Every (P : Piece → Prop) (b : Board) : Prop := ∀ e ∈ b.entries, P e.2

namespace Every

variable {P : Piece → Prop} {b b' : Board}

theorem becomes (hb : b.Every P) (h : b.Becomes (fun p q => P p → P q) b') : b'.Every P := by
  intro e he
  obtain ⟨p, hp, hkept⟩ := h.back he
  exact hkept (hb _ hp)

theorem modify (hb : b.Every P) {f : Piece → Piece} (hf : ∀ p, P p → P (f p)) (id : PieceId) :
    (b.modify id f).Every P :=
  hb.becomes (.modify (fun _ hp => hp) hf b id)

theorem erase (hb : b.Every P) (id : PieceId) : (b.erase id).Every P :=
  fun e he => hb e (List.mem_filter.1 he).1

theorem toured (hP : Kept P) (hb : b.Every P) (h : b.Toured b') : b'.Every P := by
  cases h with
  | stays h => exact hb.becomes (h.mono hP.intact)
  | comes id card owner hex justPlayed =>
    intro e he
    obtain rfl | hold := mem_enter he
    · exact hP.comes id card owner hex justPlayed
    · exact hb e hold

end Every
end Board

/-! ### Acts -/

variable {P : Piece → Prop} {s s' : Stage}

theorem Board.Every.tended (hP : Kept P) (hs : s.game.board.Every P)
    (h : Relation.ReflTransGen Tending s s') : s'.game.board.Every P :=
  hs.becomes (hP.upkept.tended h)

theorem TakenOff.every {id : PieceId} {p : Piece} (h : TakenOff s id p s') (hP : Kept P)
    (hs : s.game.board.Every P) : s'.game.board.Every P :=
  Board.Every.tended hP (s := s.map (·.changeBoard (·.erase id))) (hs.erase id) h.removed.tended

theorem Act.every (h : Act s s') (hP : Kept P) (hs : s.game.board.Every P) :
    s'.game.board.Every P := by
  induction h with
  | refl s => exact hs
  | trans _ _ ih ih' => exact ih' (ih hs)
  | errand h => exact hs.toured hP h.toured
  | reapply h => exact hs.tended hP (Play.goes_reapply _ _ _ h)
  | install id sentence duration h => exact hs.tended hP (Play.goes_grant _ _ _ _ _ _ _ h)
  | tickDurations s => exact hs.becomes (hP.upkept.withdrawAll hP.countDown _ s.game)
  | condemn id => exact hs.modify hP.condemn id
  | @destroy id card s start fallen s' hdooms _ hburied ih =>
    have hstart : start.game.board.Every P := by
      obtain rfl | rfl := hdooms
      · exact hs
      · exact hs.modify hP.condemn id
    have hfallen := ih (hstart.modify hP.fall id)
    cases hburied with
    | gone => exact hfallen
    | @discard p mid h =>
      rw [mid.board_discarded]
      exact h.every hP hfallen
  | @giveBack id p s mid h =>
    rw [mid.board_returned]
    exact h.every hP hs
  | spawn _ hresolve _ hinquired =>
    have hfound := Resolving.inquired_of_resolve hresolve
    have hboard := board_of_inquired (hfound.trans hinquired)
    exact (hboard ▸ hs).toured hP (Stage.toured_place _ _ _ _ _)

/-! ### Commands -/

namespace Match

theorem lasting_every (hP : Kept P) : Lasting fun m => m.board.Every P where
  retold := by
    rintro m _ ⟨n, rfl⟩ hm
    exact hm
  acts _ _ h hs := h.every hP hs

theorem Reachable.every {m : Match} (hm : m.Reachable) (hP : Kept P) : m.board.Every P := by
  refine (lasting_every hP).reachable (fun s m h e he => ?_) hm
  rw [MatchSetup.board_start h, MatchSetup.openingBoard] at he
  simp only [List.mem_cons, List.not_mem_nil, or_false] at he
  obtain rfl | rfl := he
  · exact hP.comes 1 (MatchSetup.coreCard .blue _) .blue Color.blue.coreHex false
  · exact hP.comes 2 (MatchSetup.coreCard .orange _) .orange Color.orange.coreHex false

end Match
end HexDuel
