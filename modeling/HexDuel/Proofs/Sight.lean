import HexDuel.Proofs.Intact
import HexDuel.Proofs.Likeness

/-!
Passive abilities that are blind to what passive abilities write. What their targets and numbers
stand for is found by looks alone, and it is the same in the match without all such writing.
-/

set_option autoImplicit false

namespace HexDuel

/-! ### Blind phrases -/

mutual

/-- Nothing is chosen, picked at random or fabricated, and no condition asks for numbers that
abilities adjust. -/
def Target.blind : Target → Bool
  | .choose _ | .random _ _ | .copyOf _ | .generateCard _ _ _ => false
  | .cardsInHand player _ => player.blind
  | .piecesMatching _ conditions | .tilesMatching conditions => allBlind conditions
  | .all inner | .controllerOf inner => inner.blind
  | .allTiles | .piecesInPlay _ | .it | .that | .they | .thisPiece | .allPlayers | .selfPlayer
  | .opponent | .salientPlayer => true

def Condition.blind : Condition → Bool
  | .adjacentTo target | .controlledBy target | .exactDistance _ target
  | .withinDistance _ target => target.blind
  | .attributeIs _ _ _ => false
  | .hasProperty property => property != .isDamaged
  | .hasId _ | .unoccupied => true

def allBlind : List Condition → Bool
  | [] => true
  | c :: cs => c.blind && allBlind cs

end

/-- A constant, or a count of what a blind target stands for. -/
def Number.blind : Number → Bool
  | .const _ => true
  | .count target => target.blind
  | _ => false

def StatusPhrase.blind : StatusPhrase → Bool
  | .canOnlyAttack target => target.blind
  | _ => true

def PassiveEffect.blind : PassiveEffect → Bool
  | .adjust _ modifier => modifier.number.blind
  | .status phrase => phrase.blind
  | .grant _ => false
  | .activated _ _ => true

def Passive.blind (a : Passive) : Bool := !a.disabled && a.targets.blind && a.effect.blind

/-- No ability of the object is disabled, and all its passive ones are blind. -/
def Piece.blind (p : Piece) : Bool := p.passives.all (·.blind) && p.triggers.all (!·.disabled)

def Match.blind (m : Match) : Bool := m.board.pieces.all (·.blind)

/-! ### Nothing written -/

/-- Card copies as they come back to a hand. -/
def Collection.reset : Collection → Collection
  | .cards xs => .cards (xs.map Card.reset)
  | c => c

/-- The object without what passive abilities have written on it, and without the record of what its
own have been applied to. -/
def Piece.unwritten (p : Piece) : Piece :=
  { p with
    passives := p.passives.map (·.setApplied none)
    activations := []
    statuses := []
    adjustments := [] }

def Seat.unwritten (s : Seat) : Seat := { s with hand := s.hand.map Card.reset }

namespace Match

/-- The match without all that passive abilities have written. -/
def unwritten (m : Match) : Match :=
  { m with
    board := m.board.mapPieces (·.unwritten)
    seats := ⟨m.seats.blue.unwritten, m.seats.orange.unwritten⟩ }

variable (m : Match)

theorem hand_unwritten (c : Color) :
    (m.unwritten.seat c).hand = (m.seat c).hand.map Card.reset := by
  cases c <;> rfl

theorem get?_unwritten (id : PieceId) :
    m.unwritten.board.get? id = (m.board.get? id).map (·.unwritten) :=
  Board.get?_mapPieces m.board (·.unwritten) id

theorem contains_unwritten (id : PieceId) :
    m.unwritten.board.contains id = m.board.contains id := by
  rw [Board.contains, get?_unwritten, Option.isSome_map]
  rfl

theorem pieces_unwritten : m.unwritten.board.pieces = m.board.pieces.map (·.unwritten) :=
  Board.pieces_mapPieces _ _

theorem pieceAt?_unwritten (hex : Hex) :
    m.unwritten.board.pieceAt? hex = (m.board.pieceAt? hex).map (·.unwritten) := by
  unfold Board.pieceAt?
  rw [pieces_unwritten, List.find?_map]
  rfl

theorem idAt?_unwritten (hex : Hex) : m.unwritten.board.idAt? hex = m.board.idAt? hex := by
  unfold Board.idAt?
  rw [pieceAt?_unwritten, Option.map_map]
  rfl

theorem holderOf?_unwritten (id : CardId) : m.unwritten.holderOf? id = m.holderOf? id := by
  have hfound : ∀ c, ((m.unwritten.seat c).cardInHand? id).isSome =
      ((m.seat c).cardInHand? id).isSome := by
    intro c
    rw [Seat.cardInHand?, hand_unwritten, List.find?_map, Option.isSome_map]
    rfl
  simp only [holderOf?, hfound]

end Match

namespace Context

theorem ownerOf_unwritten (m : Match) (id : PieceId) : ownerOf m.unwritten id = ownerOf m id := by
  unfold ownerOf
  rw [Match.get?_unwritten, Option.map_map]
  rfl

theorem forPiece_unwritten (m : Match) (id : PieceId) :
    forPiece m.unwritten id = forPiece m id := by
  unfold forPiece onBehalfOf
  rw [ownerOf_unwritten]

theorem controllerIn_unwritten (ctx : Context) (m : Match) :
    ctx.controllerIn m.unwritten = ctx.controllerIn m := by
  have howner : ownerOf m.unwritten = ownerOf m := funext (ownerOf_unwritten m)
  unfold controllerIn
  rw [howner]
  rfl

/-- Nothing but the object itself is salient. -/
structure Alone (ctx : Context) : Prop where
  it : ctx.it = none
  that : ctx.that = none
  iteratee : ctx.iteratee = none

theorem alone_forPiece (m : Match) (id : PieceId) (source : Option AbilityId) :
    Alone { forPiece m id with source := source } := ⟨rfl, rfl, rfl⟩

variable {ctx : Context}

theorem Alone.itNow (h : ctx.Alone) : ctx.itNow = ctx.current.map .piece := by
  unfold Context.itNow
  rw [h.it]
  cases ctx.inTrigger <;> cases ctx.current <;> rfl

theorem Alone.thatNow (h : ctx.Alone) : ctx.thatNow = none := by
  rw [Context.thatNow, h.that, h.it]
  rfl

theorem Alone.theyNow (h : ctx.Alone) : ctx.theyNow = none := by
  rw [Context.theyNow, h.iteratee, h.it]
  rfl

end Context

namespace Collection
variable (m : Match) (c : Collection)

theorem size_reset : c.reset.size = c.size := by
  cases c with
  | cards xs => exact List.length_map _
  | _ => rfl

theorem asPlayers_reset : c.reset.asPlayers = c.asPlayers := by cases c <;> rfl

theorem hexesIn_reset : c.reset.hexesIn m.unwritten = c.hexesIn m := by
  cases c with
  | pieces ids =>
    have hget : m.unwritten.board.get? = fun id => (m.board.get? id).map (·.unwritten) :=
      funext m.get?_unwritten
    simp only [reset, hexesIn, hget]
    rw [← List.map_filterMap, List.map_map]
    rfl
  | _ => rfl

theorem piecesIn_reset : c.reset.piecesIn m.unwritten = c.piecesIn m := by
  cases c with
  | hexes xs =>
    have hid : m.unwritten.board.idAt? = m.board.idAt? := funext m.idAt?_unwritten
    simp only [reset, piecesIn, hid]
  | _ => rfl

theorem ofSalient_unwritten (current : Option PieceId) :
    ofSalient m.unwritten (current.map .piece) = (ofSalient m (current.map .piece)).reset := by
  cases current with
  | none => rfl
  | some id =>
    simp only [Option.map_some, ofSalient, m.contains_unwritten]
    split <;> rfl

end Collection

theorem Resolving.controllers_reset (m : Match) (c : Collection) :
    controllers m.unwritten c.reset = controllers m c := by
  cases c with
  | cards xs =>
    obtain _ | ⟨card, _ | ⟨_, _⟩⟩ := xs
    · rfl
    · simp only [Collection.reset, List.map_cons, List.map_nil, controllers, m.holderOf?_unwritten]
      rfl
    · rfl
  | pieces ids =>
    obtain _ | ⟨id, _ | ⟨_, _⟩⟩ := ids
    · rfl
    · simp only [Collection.reset, controllers, m.get?_unwritten, Option.map_map]
      rfl
    · rfl
  | _ => rfl

/-! ### Predicates -/

namespace Predicate

/-- It does not ask for numbers that abilities adjust. -/
def blind : Predicate → Bool
  | .attributeIs _ _ _ => false
  | .hasProperty property => property != .isDamaged
  | _ => true

theorem holds_unwritten {q : Predicate} (hq : q.blind = true) (hex : Hex) (p : Option Piece) :
    q.holds hex (p.map (·.unwritten)) = q.holds hex p := by
  cases q with
  | attributeIs => cases hq
  | controlledBy player => cases player <;> cases p <;> rfl
  | hasProperty property =>
    cases p with
    | none => rfl
    | some p => cases property <;> first | rfl | cases hq
  | _ => cases p <;> rfl

theorem allHold_unwritten {qs : List Predicate} (hqs : ∀ q ∈ qs, q.blind = true) (hex : Hex)
    (p : Option Piece) : allHold qs hex (p.map (·.unwritten)) = allHold qs hex p := by
  unfold allHold
  induction qs with
  | nil => rfl
  | cons q qs ih =>
    unfold Outcome.all
    rw [holds_unwritten (hqs q List.mem_cons_self),
      ih fun q' hq' => hqs q' (List.mem_cons_of_mem _ hq')]

end Predicate

namespace Outcome
variable {α β : Type}

/-- Tests that go by the images of the entries keep the images. -/
theorem keep_map {f : α → β} {test : α → Outcome Bool} {test' : β → Outcome Bool}
    (h : ∀ a, test' (f a) = test a) (as : List α) :
    keep test' (as.map f) = (keep test as).map (·.map f) := by
  induction as with
  | nil => rfl
  | cons a as ih =>
    simp only [List.map_cons, keep, h, ih]
    cases test a with
    | error e => rfl
    | ok b =>
      cases keep test as with
      | error e => rfl
      | ok rest => cases b <;> rfl

end Outcome

/-! ### Looks -/

/-- The stage without all that passive abilities have written, where nothing has been told. -/
def Stage.unwritten (s : Stage) : Stage := ⟨s.game.unwritten, []⟩

namespace Resolving
variable {α β γ δ : Type} {P : α → Prop} {Q : γ → Prop} {f : α → β} {g : γ → δ}

/-- The first computation only looks, and the second one finds the same in the match without what
passive abilities have written. -/
def Mirrors (P : α → Prop) (f : α → β) (x : Resolving α) (y : Resolving β) : Prop :=
  ∀ (ctx : Context) (s : Stage), ctx.Alone → Outcome.Agree
    (fun u v => P u.1.1 ∧ u = ((u.1.1, ctx), s) ∧ v = ((f u.1.1, ctx), s.unwritten))
    ((x.run ctx).run s) ((y.run ctx).run s.unwritten)

namespace Mirrors

theorem pure {a : α} {b : β} (ha : P a) (hb : b = f a) :
    Mirrors P f (Pure.pure a : Resolving α) (Pure.pure b) :=
  fun _ _ _ => .ok ⟨ha, rfl, hb ▸ rfl⟩

theorem fail (e : Fault) : Mirrors P f (throw e : Resolving α) (throw e) := fun _ _ _ => .error e

theorem outcome {x : Outcome α} {y : Outcome β} (h : y = x.map f) :
    Mirrors (fun _ => True) f (liftM x : Resolving α) (liftM y) := by
  intro ctx s _
  subst h
  cases x with
  | ok a => exact .ok ⟨trivial, rfl, rfl⟩
  | error e => exact .error e

theorem same {x y : Outcome α} (h : y = x) :
    Mirrors (fun _ => True) id (liftM x : Resolving α) (liftM y) := .outcome (by
  rw [h]
  cases x <;> rfl)

/-- Whatever the two computations are to agree on then, they do when they do for each value that
both find. -/
theorem agree {S : (γ × Context) × Stage → (δ × Context) × Stage → Prop} {x : Resolving α}
    {y : Resolving β} {k : α → Resolving γ} {l : β → Resolving δ} (hx : Mirrors P f x y)
    {ctx : Context} (hctx : ctx.Alone) {s : Stage}
    (hk : ∀ a, P a →
      Outcome.Agree S (((k a).run ctx).run s) (((l (f a)).run ctx).run s.unwritten)) :
    Outcome.Agree S (((x >>= k).run ctx).run s) (((y >>= l).run ctx).run s.unwritten) := by
  refine (hx ctx s hctx).bind (k := fun u => ((k u.1.1).run u.1.2).run u.2)
    (l := fun v => ((l v.1.1).run v.1.2).run v.2) ?_
  rintro ⟨⟨a, ctx'⟩, s'⟩ v - ⟨ha, hu, rfl⟩
  cases hu
  exact hk a ha

theorem next {x : Resolving α} {y : Resolving β} {k : α → Resolving γ} {l : β → Resolving δ}
    (hx : Mirrors P f x y) (hk : ∀ a, P a → Mirrors Q g (k a) (l (f a))) :
    Mirrors Q g (x >>= k) (y >>= l) :=
  fun ctx s hctx => hx.agree hctx fun a ha => hk a ha ctx s hctx

theorem look {k : Match → Resolving α} {l : Match → Resolving β}
    (hk : ∀ m : Match, Mirrors P f (k m) (l m.unwritten)) :
    Mirrors P f (game >>= k) (game >>= l) := fun ctx s hctx => hk s.game ctx s hctx

theorem context {k : Context → Resolving α} {l : Context → Resolving β}
    (hk : ∀ ctx : Context, ctx.Alone → Mirrors P f (k ctx) (l ctx)) :
    Mirrors P f (MonadState.get >>= k) (MonadState.get >>= l) :=
  fun ctx s hctx => hk ctx hctx ctx s hctx

end Mirrors

/-! ### The phrases -/

/-- What a computation finds may be anything. -/
abbrev Anything {α : Type} : α → Prop := fun _ => True

mutual

theorem mirrors_resolve : (t : Target) → t.blind = true →
    Mirrors Anything Collection.reset (resolve t) (resolve t)
  | .allTiles, _ => .pure trivial rfl
  | .cardsInHand player types, h =>
    (mirrors_resolve player h).next fun c _ => (Mirrors.same c.asPlayers_reset).next fun players _ =>
      .look fun m => .pure trivial (by
        simp only [m.hand_unwritten, Collection.reset, ← List.map_flatMap, List.filter_map]
        rfl)
  | .piecesInPlay types, _ => .look fun m => .pure trivial (by
      rw [m.pieces_unwritten, List.filter_map, List.map_map]
      rfl)
  | .piecesMatching types conditions, h =>
    (mirrors_compileAll conditions h).next fun predicates hblind => .look fun m =>
      (Mirrors.outcome (f := List.map Piece.unwritten) (by
        rw [m.pieces_unwritten, List.filter_map]
        exact Outcome.keep_map (fun p => Predicate.allHold_unwritten hblind p.hex (some p)) _)).next
          fun found _ => .pure trivial (by
            rw [List.map_map]
            rfl)
  | .tilesMatching conditions, h =>
    (mirrors_compileAll conditions h).next fun predicates hblind => .look fun m =>
      (Mirrors.same (by
        simp only [id, m.pieceAt?_unwritten, Predicate.allHold_unwritten hblind])).next
          fun found _ => .pure trivial rfl
  | .all inner, h => mirrors_resolve inner h
  | .it, _ => .look fun m => .context fun ctx hctx => .pure trivial (by
      rw [hctx.itNow, Collection.ofSalient_unwritten])
  | .that, _ => .look fun m => .context fun ctx hctx => .pure trivial (by
      rw [hctx.thatNow]
      rfl)
  | .they, _ => .look fun m => .context fun ctx hctx => .pure trivial (by
      rw [hctx.theyNow]
      rfl)
  | .thisPiece, _ => .look fun m => .context fun ctx _ => .pure trivial
      (Collection.ofSalient_unwritten m ctx.current)
  | .allPlayers, _ => .look fun _ => .pure trivial rfl
  | .selfPlayer, _ => .context fun ctx _ => .look fun m => .pure trivial (by
      rw [ctx.controllerIn_unwritten]
      rfl)
  | .opponent, _ => .context fun ctx _ => .look fun m => .pure trivial (by
      rw [ctx.controllerIn_unwritten]
      rfl)
  | .salientPlayer, _ => .context fun _ _ => .look fun _ => .pure trivial rfl
  | .controllerOf inner, h =>
    (mirrors_resolve inner h).next fun c _ => .look fun m =>
      (Mirrors.same (controllers_reset m c)).next fun _ _ => .pure trivial rfl

theorem mirrors_compile : (c : Condition) → c.blind = true →
    Mirrors (·.blind = true) id (compile c) (compile c)
  | .adjacentTo target, h | .exactDistance _ target, h | .withinDistance _ target, h =>
    (mirrors_resolve target h).next fun c _ => .look fun m =>
      (Mirrors.same (c.hexesIn_reset m)).next fun _ _ => .pure rfl rfl
  | .controlledBy target, h =>
    (mirrors_resolve target h).next fun c _ =>
      (Mirrors.same c.asPlayers_reset).next fun _ _ => .pure rfl rfl
  | .hasProperty _, h => .pure h rfl
  | .hasId _, _ | .unoccupied, _ => .pure rfl rfl

theorem mirrors_compileAll : (cs : List Condition) → allBlind cs = true →
    Mirrors (fun qs => ∀ q ∈ qs, q.blind = true) id (compileAll cs) (compileAll cs)
  | [], _ => .pure (fun _ hq => nomatch hq) rfl
  | c :: cs, h =>
    have hboth : c.blind = true ∧ allBlind cs = true := Bool.and_eq_true_iff.1 h
    (mirrors_compile c hboth.1).next fun _ hq => (mirrors_compileAll cs hboth.2).next fun _ hqs =>
      .pure (List.forall_mem_cons.2 ⟨hq, hqs⟩) rfl

end

theorem mirrors_resolvePieces {target : Target} (h : target.blind = true) :
    Mirrors Anything id (resolvePieces target) (resolvePieces target) :=
  (mirrors_resolve target h).next fun c _ => .look fun m => .same (c.piecesIn_reset m)

theorem mirrors_resolveModifier {modifier : Modifier} (h : modifier.number.blind = true) :
    Mirrors Anything id (resolveModifier modifier) (resolveModifier modifier) := by
  have hnumber : Mirrors Anything id (evaluate modifier.number) (evaluate modifier.number) := by
    cases hn : modifier.number with
    | const value => exact .pure trivial rfl
    | count target =>
      rw [hn] at h
      refine (mirrors_resolve target h).next fun c _ => .pure trivial ?_
      rw [c.size_reset]
      rfl
    | _ =>
      rw [hn] at h
      cases h
  exact hnumber.next fun _ _ => .pure trivial rfl

theorem mirrors_statusKind {phrase : StatusPhrase} (h : phrase.blind = true) :
    Mirrors Anything id (statusKind phrase) (statusKind phrase) := by
  cases phrase with
  | canOnlyAttack target => exact (mirrors_resolvePieces h).next fun _ _ => .pure trivial rfl
  | _ => exact .pure trivial rfl

end Resolving
end HexDuel
