import HexDuel.Proofs.Ripples

/-!
What is left when effects have run their course. An object that was on the board before and still is
serves the same player unless an action that takes control has been carried out, and stands on the
same cell unless an action that moves objects has. Nothing new is shown, and no combat is told of.
-/

set_option autoImplicit false

namespace HexDuel

/-! ### What is told -/

def Happening.usurps : Happening → Bool
  | .executed (.takeControl ..) => true
  | _ => false

def Happening.displaces : Happening → Bool
  | .executed (.movePiece ..) => true
  | _ => false

/-- Whether an action that takes control of objects has been carried out. -/
def usurped (trace : List Happening) : Bool := trace.any (·.usurps)

/-- Whether an action that moves objects has been carried out. -/
def displaced (trace : List Happening) : Bool := trace.any (·.displaces)

theorem usurped_of_mem {player target : Target} {trace : List Happening}
    (h : .executed (.takeControl player target) ∈ trace) : usurped trace = true :=
  List.any_eq_true.2 ⟨_, h, rfl⟩

theorem displaced_of_mem {target destination : Target} {trace : List Happening}
    (h : .executed (.movePiece target destination) ∈ trace) : displaced trace = true :=
  List.any_eq_true.2 ⟨_, h, rfl⟩

/-- What is told after is told besides, and it is not of combat. -/
def Stage.Peaceful (s s' : Stage) : Prop :=
  ∃ news, s'.trace = news ++ s.trace ∧ ∀ h ∈ news, h.isCombat = false

namespace Stage.Peaceful
variable {s s' s'' : Stage}

theorem of_trace (h : s'.trace = s.trace) : s.Peaceful s' := ⟨[], h, fun _ hmem => nomatch hmem⟩

theorem of_cons {h : Happening} (hnews : s'.trace = h :: s.trace) (hplain : h.isCombat = false) :
    s.Peaceful s' := ⟨[h], hnews, List.forall_mem_singleton.2 hplain⟩

theorem trans (h : s.Peaceful s') (h' : s'.Peaceful s'') : s.Peaceful s'' := by
  obtain ⟨news, htrace, hnews⟩ := h
  obtain ⟨news', htrace', hnews'⟩ := h'
  exact ⟨news' ++ news, by rw [htrace', htrace, List.append_assoc],
    List.forall_mem_append.2 ⟨hnews', hnews⟩⟩

theorem suffix (h : s.Peaceful s') : s.trace <:+ s'.trace := by
  obtain ⟨news, htrace, -⟩ := h
  exact htrace ▸ List.suffix_append _ _

end Stage.Peaceful

/-! ### Objects at their posts -/

/-- The object serves the same player and stands on the same cell. -/
structure Piece.SamePost (p q : Piece) : Prop where
  owner : q.owner = p.owner
  hex : q.hex = p.hex

theorem Piece.upkept_samePost : Upkept SamePost :=
  .of_rewritten (fun _ _ _ h h' => ⟨h'.owner.trans h.owner, h'.hex.trans h.hex⟩) fun p q h => by
    obtain ⟨_, _, _, _, _, rfl⟩ := h
    exact ⟨rfl, rfl⟩

theorem Mark.samePost {f : Piece → Piece} (hf : Mark f) (p : Piece) : p.SamePost (f p) := by
  cases hf with
  | swap => simp only [Piece.swap]; split <;> exact ⟨rfl, rfl⟩
  | _ => exact ⟨rfl, rfl⟩

/-- Each object that was on the board before, and still is, is where it was and whose it was, as far
as the trace tells of nothing else. -/
def Stage.KeepsPosts (s s' : Stage) : Prop := ∀ id q, id ≤ s.game.lastId →
  s'.game.board.get? id = some q → ∃ p, s.game.board.get? id = some p ∧
    (usurped s'.trace = false → q.owner = p.owner) ∧ (displaced s'.trace = false → q.hex = p.hex)

/-- What effects leave. -/
structure Stage.Aftermath (s s' : Stage) : Prop where
  peaceful : s.Peaceful s'
  animations : s'.game.animations = s.game.animations
  lastId : s.game.lastId ≤ s'.game.lastId
  posts : s.KeepsPosts s'

/-- What stood there before an object was changed: the same, or what has been changed. -/
theorem Board.exists_of_get?_modify {b : Board} {id k : PieceId} {f : Piece → Piece} {q : Piece}
    (h : (b.modify id f).get? k = some q) : ∃ p, b.get? k = some p ∧ (q = p ∨ q = f p) := by
  rw [get?_modify] at h
  obtain ⟨p, hp, rfl⟩ := Option.map_eq_some_iff.1 h
  refine ⟨p, hp, ?_⟩
  split
  · exact .inr rfl
  · exact .inl rfl

namespace Stage.KeepsPosts
variable {s s' : Stage}

theorem of_becomes (h : s.game.board.Becomes Piece.SamePost s'.game.board) : s.KeepsPosts s' := by
  intro id q _ hq
  obtain ⟨p, hp, hsame⟩ := h.get? hq
  exact ⟨p, hp, fun _ => hsame.owner, fun _ => hsame.hex⟩

theorem of_board (h : s'.game.board = s.game.board) : s.KeepsPosts s' :=
  of_becomes (h ▸ .refl Piece.upkept_samePost.refl _)

theorem piece (id : PieceId) {f : Piece → Piece} (hf : ∀ p : Piece, p.SamePost (f p)) :
    s.KeepsPosts (s.map (·.changePiece id f)) :=
  of_becomes (.modify Piece.upkept_samePost.refl hf s.game.board id)

theorem erase (id : PieceId) : s.KeepsPosts (s.map (·.changeBoard (·.erase id))) := by
  intro k q _ hq
  have hget : (s.game.board.erase id).get? k = some q := hq
  rw [Board.get?_erase] at hget
  split at hget
  · cases hget
  · exact ⟨q, hget, fun _ => rfl, fun _ => rfl⟩

/-- A new object comes under a new number. -/
theorem place (card : Card) (hex : Hex) (owner : Color) (justPlayed : Bool) :
    s.KeepsPosts (s.place card hex owner justPlayed) := by
  intro k q hk hq
  obtain ⟨rfl, -⟩ | hold := Board.get?_enter hq
  · exact absurd hk (Nat.not_succ_le_self _)
  · exact ⟨q, hold, fun _ => rfl, fun _ => rfl⟩

theorem takeControl (owner : Color) (id : PieceId) (hnoted : usurped s.trace = true) :
    s.KeepsPosts (s.map (Resolving.takeControl owner id)) := by
  intro k q _ hq
  have hget : (Resolving.takeControl owner id s.game).board.get? k = some q := hq
  unfold Resolving.takeControl at hget
  split at hget
  · exact ⟨q, hget, fun _ => rfl, fun _ => rfl⟩
  · split at hget
    · exact ⟨q, hget, fun _ => rfl, fun _ => rfl⟩
    · obtain ⟨p, hp, hjoined⟩ := Board.exists_of_get?_modify hget
      have hhex : q.hex = p.hex := by obtain rfl | rfl := hjoined <;> rfl
      exact ⟨p, hp, fun hnone => absurd (hnoted.symm.trans hnone) Bool.noConfusion, fun _ => hhex⟩

theorem moveTo (id : PieceId) (hex : Hex) (hnoted : displaced s.trace = true) :
    s.KeepsPosts (s.map (Resolving.moveTo id hex)) := by
  intro k q _ hq
  have hget : (Resolving.moveTo id hex s.game).board.get? k = some q := hq
  unfold Resolving.moveTo at hget
  split at hget
  · obtain ⟨p, hp, hmoved⟩ := Board.exists_of_get?_modify hget
    have howner : q.owner = p.owner := by obtain rfl | rfl := hmoved <;> rfl
    exact ⟨p, hp, fun _ => howner, fun hnone => absurd (hnoted.symm.trans hnone) Bool.noConfusion⟩
  · exact ⟨q, hget, fun _ => rfl, fun _ => rfl⟩

end Stage.KeepsPosts

/-! ### The course of effects -/

namespace Stage.Aftermath
variable {s s' s'' : Stage}

theorem refl (s : Stage) : s.Aftermath s := ⟨.of_trace rfl, rfl, Nat.le_refl _, .of_board rfl⟩

theorem trans (h : s.Aftermath s') (h' : s'.Aftermath s'') : s.Aftermath s'' := by
  refine ⟨h.peaceful.trans h'.peaceful, h'.animations.trans h.animations,
    Nat.le_trans h.lastId h'.lastId, fun id r hid hr => ?_⟩
  obtain ⟨q, hq, howner', hhex'⟩ := h'.posts id r (Nat.le_trans hid h.lastId) hr
  obtain ⟨p, hp, howner, hhex⟩ := h.posts id q hid hq
  have hbefore := h'.peaceful.suffix
  exact ⟨p, hp,
    fun hnone => (howner' hnone).trans (howner (any_eq_false_of_suffix hbefore hnone)),
    fun hnone => (hhex' hnone).trans (hhex (any_eq_false_of_suffix hbefore hnone))⟩

theorem of_silenced {f : Match → Match} (h : s.game.Silenced (f s.game))
    (hboard : s.game.board.Becomes Piece.SamePost (f s.game).board) : s.Aftermath (s.map f) :=
  ⟨.of_trace rfl, h.animations, Nat.le_of_eq h.lastId.symm, .of_becomes hboard⟩

end Stage.Aftermath

theorem Inquiry.peaceful {s s' : Stage} (h : Inquiry s s') : s.Peaceful s' := by
  cases h with
  | random | addLog => exact .of_trace rfl
  | picked | number => exact .of_cons rfl rfl
  | consult _ hc =>
    cases hc with
    | answered | suspended => exact .of_cons rfl rfl
    | waiting | refused => exact .of_trace rfl

theorem Tending.peaceful {s s' : Stage} (h : Tending s s') : s.Peaceful s' := by
  cases h with
  | inquiry h => exact h.peaceful
  | addPassive | addTrigger => exact .of_cons rfl rfl
  | withdrawApplied | dropDisabled | inscribe | adjustCostOf => exact .of_trace rfl

theorem Tending.animations {s s' : Stage} (h : Tending s s') :
    s'.game.animations = s.game.animations := by
  cases h with
  | inquiry h =>
    cases h with
    | consult _ hc => exact hc.silenced.animations
    | _ => rfl
  | withdrawApplied a => exact (Match.Silenced.withdrawAll [a] s.game).animations
  | dropDisabled => exact (Match.Silenced.withdrawAll _ _).animations
  | adjustCostOf ability adjustment id =>
    dsimp only [Stage.map]
    unfold Resolving.adjustCostOf
    split <;> rfl
  | _ => rfl

theorem Tending.aftermath {s s' : Stage} (h : Tending s s') : s.Aftermath s' :=
  ⟨h.peaceful, h.animations, h.steps.continues.lastId,
    .of_becomes (Piece.upkept_samePost.tending h)⟩

theorem Ripple.aftermath {s s' : Stage} (h : Ripple s s') : s.Aftermath s' := by
  cases h with
  | tending h => exact h.aftermath
  | note hplain => exact ⟨.of_cons rfl hplain, rfl, Nat.le_refl _, .of_board rfl⟩
  | aside h =>
    exact ⟨.of_trace rfl, h.animations, Nat.le_of_eq h.lastId.symm, .of_board h.board⟩
  | mark id hf => exact ⟨.of_trace rfl, rfl, Nat.le_refl _, .piece id hf.samePost⟩
  | endTurnOf c =>
    refine .of_silenced ⟨rfl, rfl, rfl, rfl, rfl⟩ (.mapPieces (fun p => ?_) s.game.board)
    unfold Piece.endTurnOf
    split <;> exact ⟨rfl, rfl⟩
  | beginTurnOf c =>
    refine .of_silenced ⟨rfl, rfl, rfl, rfl, rfl⟩ (.mapPieces (fun p => ?_) s.game.board)
    unfold Piece.beginTurnOf
    split <;> exact ⟨rfl, rfl⟩
  | tickDurations =>
    have hcounted : s.game.Silenced (s.game.changeBoard (·.mapPieces (·.countDown))) :=
      ⟨rfl, rfl, rfl, rfl, rfl⟩
    exact .of_silenced (hcounted.trans (.withdrawAll _ _))
      (Piece.upkept_samePost.withdrawAll (f := (·.countDown)) (fun _ => ⟨rfl, rfl⟩) _ s.game)
  | takeControl owner id hnoted =>
    have hcontinues : (Resolving.takeControl owner id s.game).animations = s.game.animations ∧
        (Resolving.takeControl owner id s.game).lastId = s.game.lastId := by
      unfold Resolving.takeControl
      split
      · exact ⟨rfl, rfl⟩
      · split <;> exact ⟨rfl, rfl⟩
    exact ⟨.of_trace rfl, hcontinues.1, Nat.le_of_eq hcontinues.2.symm,
      .takeControl owner id (usurped_of_mem hnoted)⟩
  | moveTo id hex hnoted =>
    have hcontinues : (Resolving.moveTo id hex s.game).animations = s.game.animations ∧
        (Resolving.moveTo id hex s.game).lastId = s.game.lastId := by
      unfold Resolving.moveTo
      split <;> exact ⟨rfl, rfl⟩
    exact ⟨.of_trace rfl, hcontinues.1, Nat.le_of_eq hcontinues.2.symm,
      .moveTo id hex (displaced_of_mem hnoted)⟩
  | place card hex owner justPlayed =>
    exact ⟨.of_cons rfl rfl, rfl, Nat.le_succ _, .place card hex owner justPlayed⟩
  | erase id => exact ⟨.of_trace rfl, rfl, Nat.le_refl _, .erase id⟩

theorem Stage.Aftermath.of_ripples {s s' : Stage} (h : Relation.ReflTransGen Ripple s s') :
    s.Aftermath s' := by
  induction h with
  | refl => exact .refl s
  | tail _ hlast ih => exact ih.trans hlast.aftermath

/-- What a computation leaves that goes by ripples. -/
theorem Play.Goes.aftermath {α : Type} {p : Play α} (hp : Play.Goes Ripple p) {s s' : Stage}
    {a : α} (h : p.run s = .ok (a, s')) : s.Aftermath s' := .of_ripples (hp s a s' h)

end HexDuel
