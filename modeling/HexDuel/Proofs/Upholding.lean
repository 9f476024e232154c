import HexDuel.Proofs.Creeds
import HexDuel.Proofs.DeedsTargets

/-!
Computations that uphold a creed. From a match that abides by it they come to one that does, with a
value of a kind, or they fail. Where it matters they do not fail for the depth of what they follow.
-/

set_option autoImplicit false

namespace HexDuel

variable {α β : Type} {P : α → Prop} {Q : β → Prop}

/-! ### Values -/

namespace Outcome

/-- There is a value of that kind, or the failure is not one of depth. -/
def Meets (Q : α → Prop) : Outcome α → Prop
  | .ok a => Q a
  | .error f => f ≠ .exhausted

theorem Meets.bind {x : Outcome α} {k : α → Outcome β} (hx : Meets P x)
    (hk : ∀ a, P a → Meets Q (k a)) : Meets Q (x >>= k) := by
  cases x with
  | ok a => exact hk a hx
  | error f => exact hx

theorem Meets.map {x : Outcome α} {f : α → β} (hx : Meets P x) (hf : ∀ a, P a → Q (f a)) :
    Meets Q (f <$> x) := by
  cases x with
  | ok a => exact hf a hx
  | error f => exact hx

theorem Meets.mono {x : Outcome α} {P' : α → Prop} (hx : Meets P x) (h : ∀ a, P a → P' a) :
    Meets P' x := by
  cases x with
  | ok a => exact h a hx
  | error f => exact hx

theorem meets_int32 (i : Int) : Meets Fits32 (int32 i) := by
  unfold int32
  split
  · rename_i h
    exact Hex.inWord_iff.1 h
  · exact fun h => nomatch h

theorem Meets.mapM {f : α → Outcome β} {as : List α} (hf : ∀ a ∈ as, Meets Q (f a)) :
    Meets (fun bs => ∀ b ∈ bs, Q b) (as.mapM f) := by
  induction as with
  | nil => exact fun _ hb => nomatch hb
  | cons a as ih =>
    obtain ⟨hfirst, hrest⟩ := List.forall_mem_cons.1 hf
    rw [List.mapM_cons]
    exact hfirst.bind fun b hb => (ih hrest).bind fun bs hbs => List.forall_mem_cons.2 ⟨hb, hbs⟩

theorem Meets.foldlM {f : β → α → Outcome β} {as : List α}
    (hf : ∀ a ∈ as, ∀ b, Q b → Meets Q (f b a)) {b : β} (hb : Q b) : Meets Q (as.foldlM f b) := by
  induction as generalizing b with
  | nil => exact hb
  | cons a as ih =>
    obtain ⟨hfirst, hrest⟩ := List.forall_mem_cons.1 hf
    rw [List.foldlM_cons]
    exact (hfirst b hb).bind fun b hb => ih hrest hb

theorem Meets.keep {test : α → Outcome Bool} {as : List α}
    (h : ∀ a ∈ as, Meets (fun _ => True) (test a)) :
    Meets (fun bs => ∀ b ∈ bs, b ∈ as) (keep test as) := by
  cases hk : Outcome.keep test as with
  | ok bs => exact (keep_sublist hk).subset
  | error f =>
    induction as with
    | nil => cases hk
    | cons a as ih =>
      obtain ⟨hfirst, hrest⟩ := List.forall_mem_cons.1 h
      unfold Outcome.keep at hk
      cases ht : test a with
      | error g =>
        rw [ht] at hk hfirst
        cases hk
        exact hfirst
      | ok b =>
        cases hr : Outcome.keep test as with
        | ok bs =>
          rw [ht, hr] at hk
          cases hk
        | error g =>
          rw [ht, hr] at hk
          cases hk
          exact ih hrest hr

theorem Meets.all {test : α → Outcome Bool} {as : List α}
    (h : ∀ a ∈ as, Meets (fun _ => True) (test a)) : Meets (fun _ => True) (all test as) := by
  induction as with
  | nil => trivial
  | cons a as ih =>
    obtain ⟨hfirst, hrest⟩ := List.forall_mem_cons.1 h
    refine hfirst.bind fun passes _ => ?_
    split
    · exact ih hrest
    · trivial

theorem Meets.filterM {test : α → Outcome Bool} {as : List α}
    (h : ∀ a ∈ as, Meets (fun _ => True) (test a)) :
    Meets (fun _ => True) (as.filterM test) := by
  have haux : ∀ out, Meets (fun _ => True) (List.filterAuxM test as out) := by
    induction as with
    | nil => exact fun _ => trivial
    | cons a as ih =>
      obtain ⟨hfirst, hrest⟩ := List.forall_mem_cons.1 h
      exact fun out => hfirst.bind fun _ _ => ih hrest _
  exact (haux []).bind fun _ _ => trivial

end Outcome

open Outcome (Meets)

/-! ### Numbers of objects and collections -/

theorem Adjustment.meets_apply {a : Adjustment} (ha : a.Fits) {i : Int} (hi : Fits32 i) :
    Meets Fits32 (a.apply i) := by
  have hraw : Meets Fits32 (a.raw i) := by
    cases a with
    | add n | subtract n | multiply n => exact fits32_saturate _
    | divide n =>
      show Meets Fits32 (if n = 0 then .ok i else Outcome.int32 (i / n))
      split
      · exact hi
      · exact Outcome.meets_int32 _
    | set n => exact ha
  refine hraw.map fun j hj => ?_
  rw [fits32_iff] at *
  omega

theorem Adjustment.meets_applyAll {as : List Adjustment} (has : ∀ a ∈ as, a.Fits) {i : Int}
    (hi : Fits32 i) : Meets Fits32 (applyAll as i) :=
  Meets.foldlM (fun a ha _ hj => meets_apply (has a ha) hj) hi

variable {K : Creed}

theorem Card.Abides.meets_effectiveCost {c : Card} (h : c.Abides K) :
    Meets Fits32 c.effectiveCost := by
  refine Adjustment.meets_applyAll (List.forall_mem_map.2 fun a ha => ?_) h.cost
  exact (h.costAdjustments a ha).adjustment

namespace Piece.Abides
variable {p : Piece}

theorem meets_value? (h : p.Abides K) (stat : Attribute) :
    Meets (fun o => ∀ i ∈ o, Fits32 i) (p.value? stat) := by
  unfold Piece.value?
  split
  · exact fun _ hi => nomatch hi
  · rename_i base hbase
    have hfits : ∀ a ∈ p.adjustmentsOf stat, a.Fits := List.forall_mem_map.2 fun a ha =>
      (h.adjustments a (List.mem_filter.1 ha).1).adjustment
    exact (Adjustment.meets_applyAll hfits (h.stats.get hbase)).map fun i hi j hj =>
      Option.some.inj hj ▸ hi

theorem meets_value (h : p.Abides K) (stat : Attribute) : Meets Fits32 (p.value stat) := by
  refine (h.meets_value? stat).map fun o ho => ?_
  cases o with
  | none => exact fits32_zero
  | some i => exact ho i rfl

theorem meets_isDoomed (h : p.Abides K) : Meets (fun _ => True) p.isDoomed :=
  (h.meets_value .health).bind fun _ _ => trivial

theorem meets_has (h : p.Abides K) (property : Property) :
    Meets (fun _ => True) (p.has property) := by
  cases property with
  | isDamaged => exact (h.meets_value .health).bind fun _ _ => trivial
  | _ => trivial

theorem meets_movesLeft (h : p.Abides K) : Meets (fun _ => True) p.movesLeft := by
  unfold Piece.movesLeft
  split
  · trivial
  · exact (h.meets_value .speed).bind fun _ _ =>
      (Outcome.meets_int32 _).bind fun _ _ => trivial

end Piece.Abides

/-! ### Cells -/

namespace Hex

theorem fits_of_onBoard {h : Hex} (hboard : h.onBoard = true) (hlevel : h.Level) : h.Fits := by
  obtain ⟨hq, hr, hs⟩ := onBoard_iff.1 hboard
  refine ⟨?_, ?_, ?_, ?_, hlevel⟩ <;> rw [fits32_iff] <;> omega

theorem fits_of_mem_all {h : Hex} (hmem : h ∈ all) : h.Fits :=
  fits_of_onBoard (mem_all_iff.1 hmem).1 (mem_all_iff.1 hmem).2

end Hex

theorem Piece.Abides.meets_mayAttack {attacker : Piece} (h : attacker.Abides K) (m : Match)
    (hex : Hex) : Meets (fun _ => True) (m.mayAttack attacker hex) := by
  unfold Match.mayAttack
  split
  · trivial
  · split
    · exact (h.meets_value .attack).bind fun _ _ => trivial
    · trivial

namespace Match.Abides
variable {m : Match}

theorem meets_movementHexes (h : m.Abides K) (start : Hex) :
    Meets (fun hexes => ∀ x ∈ hexes, x.Fits) (m.movementHexes start) := by
  unfold Match.movementHexes
  cases hp : m.board.pieceAt? start with
  | none => exact fun _ hx => nomatch hx
  | some p =>
    have hstart : start.Fits := by
      obtain ⟨_, rfl⟩ := Board.mem_of_pieceAt? hp
      exact (h.board.pieceAt? hp).hex
    have hlevel : ∀ a ∈ [start], a.Level := List.forall_mem_singleton.2 hstart.level
    refine (h.board.pieceAt? hp).meets_movesLeft.bind fun left _ x hx => ?_
    have hmem := (List.mem_filter.1 hx).1
    obtain hfound | hboard := Hex.onBoard_of_mem_search hmem
    · exact List.mem_singleton.1 hfound ▸ hstart
    · exact Hex.fits_of_onBoard hboard (Hex.level_of_mem_search hlevel hlevel hmem)

theorem meets_attackHexes (h : m.Abides K) (start : Hex) :
    Meets (fun _ => True) (m.attackHexes start) := by
  unfold Match.attackHexes
  cases hp : m.board.pieceAt? start with
  | none => trivial
  | some p =>
    exact (h.meets_movementHexes start).bind fun stops _ =>
      Meets.filterM fun hex _ => (h.board.pieceAt? hp).meets_mayAttack m hex

theorem meets_stepBeforeAttack (h : m.Abides K) (start target : Hex) :
    Meets (fun o => ∀ x ∈ o, x.Fits) (m.stepBeforeAttack start target) := by
  unfold Match.stepBeforeAttack
  split
  · exact fun _ hx => nomatch hx
  · exact (h.meets_movementHexes start).bind fun hexes hhexes x hx =>
      hhexes x (List.mem_of_find?_eq_some hx)

end Match.Abides

/-! ### Surroundings -/

def Salient.Abides (K : Creed) : Salient → Prop
  | .piece _ => True
  | .card c => c.Abides K

/-- What can be spoken of abides by the creed. -/
structure Context.Abides (K : Creed) (ctx : Context) : Prop where
  it : ∀ x ∈ ctx.it, x.Abides K
  that : ∀ x ∈ ctx.that, x.Abides K
  iteratee : ∀ x ∈ ctx.iteratee, x.Abides K
  duration : ∀ n ∈ ctx.duration, FitsCount n

namespace Context.Abides

theorem empty : Context.empty.Abides K :=
  ⟨fun _ h => (nomatch h), fun _ h => (nomatch h), fun _ h => (nomatch h), fun _ h => nomatch h⟩

theorem command (player : Color) : (Context.command player).Abides K := { empty (K := K) with }

variable {ctx : Context}

theorem onBehalfOf (h : ctx.Abides K) (m : Match) (id : PieceId) :
    (ctx.onBehalfOf m id).Abides K := { h with }

theorem forPiece (m : Match) (id : PieceId) : (Context.forPiece m id).Abides K :=
  empty.onBehalfOf m id

theorem iterating (h : ctx.Abides K) {iteratee : Option Salient}
    (hiteratee : ∀ x ∈ iteratee, x.Abides K) :
    { ctx with iteratee := iteratee }.Abides K := { h with iteratee := hiteratee }

theorem or {o o' : Option Salient} (h : ∀ x ∈ o, x.Abides K) (h' : ∀ x ∈ o', x.Abides K) :
    ∀ x ∈ o.or o', x.Abides K := by
  cases o with
  | none => exact h'
  | some a => exact h

theorem current (ctx : Context) : ∀ x ∈ ctx.current.map Salient.piece, x.Abides K := by
  intro x hx
  obtain ⟨_, _, rfl⟩ := Option.map_eq_some_iff.1 hx
  trivial

theorem itNow (h : ctx.Abides K) : ∀ x ∈ ctx.itNow, x.Abides K := by
  unfold Context.itNow
  dsimp only
  split
  · exact or h.it (current ctx)
  · exact or (current ctx) h.it

theorem thatNow (h : ctx.Abides K) : ∀ x ∈ ctx.thatNow, x.Abides K := or h.that h.it

theorem theyNow (h : ctx.Abides K) : ∀ x ∈ ctx.theyNow, x.Abides K := or h.iteratee h.it

end Context.Abides

theorem Collection.abides_ofSalient {m : Match} (hm : m.Abides K) {o : Option Salient}
    (ho : ∀ x ∈ o, x.Abides K) : (ofSalient m o).Abides K := by
  unfold ofSalient
  split
  · split
    · rename_i id hid
      exact List.forall_mem_singleton.2 (hm.board.contains hid)
    · exact fun _ h => nomatch h
  · rename_i c
    exact List.forall_mem_singleton.2 (ho (.card c) rfl)
  · exact fun _ h => nomatch h

/-! ### Computations -/

/-- Where depth matters, a failure is not one of depth. -/
def Fault.Allowed (strict : Bool) (f : Fault) : Prop := strict = true → f ≠ .exhausted

variable {strict : Bool}

namespace Play

def Upholds (K : Creed) (strict : Bool) (Q : α → Prop) (p : Play α) : Prop :=
  ∀ s : Stage, s.game.Abides K →
    match p.run s with
    | .ok (a, s') => s'.game.Abides K ∧ Q a
    | .error f => f.Allowed strict

namespace Upholds

theorem pure {a : α} (h : P a) : Upholds K strict P (Pure.pure a) := fun _ hs => ⟨hs, h⟩

theorem fail {f : Fault} (h : f ≠ .exhausted) : Upholds K strict P (throw f : Play α) :=
  fun _ _ _ => h

theorem lift {x : Outcome α} (h : Meets P x) : Upholds K strict P (liftM x : Play α) := by
  cases x with
  | ok a => exact fun _ hs => ⟨hs, h⟩
  | error f => exact fun _ _ _ => h

theorem next {p : Play α} {k : α → Play β} (hp : Upholds K strict P p)
    (hk : ∀ a, P a → Upholds K strict Q (k a)) : Upholds K strict Q (p >>= k) := by
  intro s hs
  have hfirst := hp s hs
  rw [StateT.run_bind]
  cases hrun : p.run s with
  | ok x =>
    rw [hrun] at hfirst
    exact hk x.1 hfirst.2 x.2 hfirst.1
  | error f =>
    rw [hrun] at hfirst
    exact hfirst

theorem look {k : Match → Play α} (h : ∀ m : Match, m.Abides K → Upholds K strict P (k m)) :
    Upholds K strict P (game >>= k) := fun s hs => h s.game hs s hs

theorem change {f : Match → Match} (h : ∀ m : Match, m.Abides K → (f m).Abides K) :
    Upholds K strict (fun _ => True) (Play.change f) := fun s hs => ⟨h s.game hs, trivial⟩

/-- What is looked up before a change is known of the very match that is changed. -/
theorem changeIf {c : Match → Prop} [DecidablePred c] {f : Match → Match} {k : Match → Play α}
    {e : Fault} (he : e ≠ .exhausted) (hf : ∀ m : Match, m.Abides K → c m → (f m).Abides K)
    (hk : ∀ m : Match, m.Abides K → Upholds K strict P (k m)) :
    Upholds K strict P (do
      let m ← game
      if c m then do Play.change f; k m else throw e) := by
  intro s hs
  have hrun : StateT.run (do let m ← game; if c m then do Play.change f; k m else throw e) s =
      StateT.run (if c s.game then do Play.change f; k s.game else throw e) s := rfl
  rw [hrun]
  by_cases hc : c s.game
  · rw [if_pos hc]
    exact hk s.game hs ⟨f s.game, s.trace⟩ (hf s.game hs hc)
  · rw [if_neg hc]
    exact fun _ => he

theorem note (h : Happening) : Upholds K strict (fun _ => True) (Play.note h) :=
  fun _ hs => ⟨hs, trivial⟩

theorem forM {as : List α} {k : α → Play Unit}
    (hk : ∀ a ∈ as, Upholds K strict (fun _ => True) (k a)) :
    Upholds K strict (fun _ => True) (as.forM k) := by
  induction as with
  | nil => exact pure trivial
  | cons a as ih =>
    obtain ⟨hfirst, hrest⟩ := List.forall_mem_cons.1 hk
    exact hfirst.next fun _ _ => ih hrest

theorem piece? (id : PieceId) :
    Upholds K strict (fun o => ∀ p ∈ o, p.Abides K) (Play.piece? id) :=
  fun _ hs => ⟨hs, fun _ hp => (hs.board.get? hp).2⟩

theorem freshId : Upholds K strict FitsId freshId := by
  intro s hs
  rw [run_freshId]
  by_cases hlt : s.game.lastId + 1 < Width.end64
  · rw [if_pos hlt]
    have hnumbered : { s.game with lastId := s.game.lastId + 1 }.Abides K :=
      { hs with lastId := hlt }
    exact ⟨hnumbered, hlt⟩
  · rw [if_neg hlt]
    exact fun _ h => nomatch h

end Upholds
end Play

namespace Resolving

def Upholds (K : Creed) (strict : Bool) (Q : α → Prop) (r : Resolving α) : Prop :=
  ∀ ctx : Context, ctx.Abides K →
    Play.Upholds K strict (fun x => Q x.1 ∧ x.2.Abides K) (r.run ctx)

namespace Upholds

theorem lift {p : Play α} (hp : Play.Upholds K strict P p) :
    Upholds K strict P (liftM p : Resolving α) := fun ctx hctx =>
  Play.Upholds.next (k := fun a => Pure.pure (a, ctx)) hp fun _ ha => .pure ⟨ha, hctx⟩

theorem pure {a : α} (h : P a) : Upholds K strict P (Pure.pure a) := fun _ hctx => .pure ⟨h, hctx⟩

theorem fail {f : Fault} (h : f ≠ .exhausted) : Upholds K strict P (throw f : Resolving α) :=
  fun _ _ => .fail h

theorem outcome {x : Outcome α} (h : Meets P x) : Upholds K strict P (liftM x : Resolving α) :=
  lift (.lift h)

theorem next {r : Resolving α} {k : α → Resolving β} (hr : Upholds K strict P r)
    (hk : ∀ a, P a → Upholds K strict Q (k a)) : Upholds K strict Q (r >>= k) := fun ctx hctx =>
  (hr ctx hctx).next fun x hx => hk x.1 hx.1 x.2 hx.2

theorem look {k : Match → Resolving α}
    (h : ∀ m : Match, m.Abides K → Upholds K strict P (k m)) :
    Upholds K strict P (game >>= k) := fun ctx hctx => .look fun m hm => h m hm ctx hctx

theorem context {k : Context → Resolving α}
    (h : ∀ ctx : Context, ctx.Abides K → Upholds K strict P (k ctx)) :
    Upholds K strict P (MonadState.get >>= k) := fun ctx hctx => h ctx hctx ctx hctx

theorem salience {f : Context → Context} (h : ∀ ctx : Context, ctx.Abides K → (f ctx).Abides K) :
    Upholds K strict (fun _ => True) (modify f : Resolving Unit) := fun ctx hctx =>
  .pure ⟨trivial, h ctx hctx⟩

theorem change {f : Match → Match} (h : ∀ m : Match, m.Abides K → (f m).Abides K) :
    Upholds K strict (fun _ => True) (Resolving.change f) := lift (.change h)

theorem note (h : Happening) : Upholds K strict (fun _ => True) (Resolving.note h) := lift (.note h)

theorem forM {as : List α} {k : α → Resolving Unit}
    (hk : ∀ a ∈ as, Upholds K strict (fun _ => True) (k a)) :
    Upholds K strict (fun _ => True) (as.forM k) := by
  induction as with
  | nil => exact pure trivial
  | cons a as ih =>
    obtain ⟨hfirst, hrest⟩ := List.forall_mem_cons.1 hk
    exact hfirst.next fun _ _ => ih hrest

/-- The value without what the computation made salient. -/
theorem run' {r : Resolving α} (h : Upholds K strict P r) {ctx : Context} (hctx : ctx.Abides K) :
    Play.Upholds K strict P (r.run' ctx) := by
  have hrun : (r.run' ctx : Play α) = r.run ctx >>= fun x => Pure.pure x.1 := rfl
  rw [hrun]
  exact (h ctx hctx).next fun x hx => .pure hx.1

end Upholds
end Resolving

end HexDuel
