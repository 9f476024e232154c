import HexDuel.Proofs.Perusal
import HexDuel.Proofs.Cells
import HexDuel.Proofs.Gains
import Mathlib.Data.List.Nodup

/-!
Nothing is met twice. What a target stands for names each object, cell and player at most once, and
all its objects are on the board; so do the objects on its cells and the cores of its players. An
action that works on its objects one at a time therefore works on each of them at most once.
-/

set_option autoImplicit false

namespace HexDuel

/-! ### Cells and random picks -/

theorem Hex.nodup_all : Hex.all.Nodup := by decide

namespace Generator

theorem nodup_pick {α : Type} {xs : List α} (hxs : xs.Nodup) (count : Nat) (g : Generator) :
    (pick count xs g).1.Nodup := by
  induction count generalizing xs g with
  | zero => exact .nil
  | succ count ih =>
    cases xs with
    | nil => exact .nil
    | cons x xs =>
      unfold pick
      dsimp only
      split
      · exact .nil
      · rename_i a ha
        obtain ⟨hi, rfl⟩ := List.getElem?_eq_some_iff.1 ha
        -- The entry that is drawn and those that are left make up the pool.
        have hpool := (List.getElem_cons_eraseIdx_perm hi).nodup_iff.2 hxs
        obtain ⟨hfresh, hrest⟩ := List.nodup_cons.1 hpool
        exact List.nodup_cons.2 ⟨fun h => hfresh (Resolving.mem_of_mem_pick h), ih hrest _⟩

end Generator

/-! ### Boards -/

namespace Board
variable {b : Board}

theorem Sound.get?_id (hb : b.Sound) {p : Piece} (hp : p ∈ b.pieces) :
    b.get? p.id = some p := by
  obtain ⟨e, he, rfl⟩ := List.mem_map.1 hp
  rw [hb.keyed e he]
  exact get?_of_mem hb.nodup he

theorem Sound.pieces_ids (hb : b.Sound) : b.pieces.map (·.id) = b.ids := by
  rw [pieces, ids, List.map_map]
  exact List.map_congr_left fun e he => hb.keyed e he

theorem contains_of_get? {id : PieceId} {p : Piece} (h : b.get? id = some p) :
    b.contains id = true := by
  rw [contains, h]
  rfl

/-- What is found on a cell stands there. -/
theorem Sound.exists_of_idAt? (hb : b.Sound) {hex : Hex} {id : PieceId}
    (h : b.idAt? hex = some id) : ∃ p, b.get? id = some p ∧ p.hex = hex := by
  obtain ⟨p, hp, rfl⟩ := Option.map_eq_some_iff.1 h
  obtain ⟨hmem, hhex⟩ := mem_of_pieceAt? hp
  exact ⟨p, hb.get?_id hmem, hhex⟩

theorem Sound.exists_of_coreOf? (hb : b.Sound) {owner : Color} {p : Piece}
    (h : b.coreOf? owner = some p) : b.get? p.id = some p ∧ p.owner = owner := by
  obtain ⟨hmem, howner⟩ := List.mem_filter.1 (List.mem_of_find?_eq_some h)
  exact ⟨hb.get?_id hmem, eq_of_beq howner⟩

end Board

/-! ### Collections -/

namespace Collection

/-- Objects that are on the board, none of them twice. -/
def PiecesOnce (b : Board) (ids : List PieceId) : Prop :=
  ids.Nodup ∧ ∀ id ∈ ids, b.contains id = true

/-- No object, cell or player twice, and all objects on the board. -/
def Once (b : Board) : Collection → Prop
  | .pieces ids => PiecesOnce b ids
  | .hexes xs => xs.Nodup
  | .players xs => xs.Nodup
  | .cards _ => True

/-- Nothing is met twice in the collection, whichever way it is read in the match: as it is, by the
objects on its cells, by the cores of its players or by the cells of its objects. -/
structure Distinct (m : Match) (c : Collection) : Prop where
  once : c.Once m.board
  pieces : ∀ ids, c.piecesIn m = .ok ids → PiecesOnce m.board ids
  victims : ∀ ids, Resolving.victims m c = .ok ids → PiecesOnce m.board ids
  cells : ∀ xs, c.hexesIn m = .ok xs → xs.Nodup

variable {b : Board} {m : Match} {c : Collection}

theorem piecesOnce_of_sublist (hb : b.Sound) {ps : List Piece} (h : ps.Sublist b.pieces) :
    PiecesOnce b (ps.map (·.id)) := by
  refine ⟨(h.map _).nodup (hb.pieces_ids ▸ hb.nodup), fun id hid => ?_⟩
  obtain ⟨p, hp, rfl⟩ := List.mem_map.1 hid
  exact Board.contains_of_get? (hb.get?_id (h.subset hp))

theorem once_emptied (c : Collection) : c.emptied.Once b := by
  cases c with
  | pieces => exact ⟨.nil, nofun⟩
  | hexes | players => exact List.nodup_nil
  | cards => trivial

theorem once_ofSalient (m : Match) (x : Option Salient) : (ofSalient m x).Once m.board := by
  unfold ofSalient
  split
  · split
    · rename_i hon
      exact ⟨List.nodup_singleton _, fun _ h => List.mem_singleton.1 h ▸ hon⟩
    · exact ⟨.nil, nofun⟩
  · trivial
  · exact ⟨.nil, nofun⟩

theorem Once.piecesIn (hb : m.board.Sound) (h : c.Once m.board) {ids : List PieceId}
    (hids : c.piecesIn m = .ok ids) : PiecesOnce m.board ids := by
  cases c with
  | pieces => cases hids; exact h
  | hexes xs =>
    cases hids
    refine ⟨List.Nodup.filterMap (fun x y id hx hy => ?_) h, fun id hid => ?_⟩
    · obtain ⟨p, hp, rfl⟩ := hb.exists_of_idAt? hx
      obtain ⟨q, hq, rfl⟩ := hb.exists_of_idAt? hy
      rw [hp] at hq
      cases hq
      rfl
    · obtain ⟨hex, -, hat⟩ := List.mem_filterMap.1 hid
      obtain ⟨p, hp, -⟩ := hb.exists_of_idAt? hat
      exact Board.contains_of_get? hp
  | cards | players => cases hids

theorem Once.victims (hb : m.board.Sound) (h : c.Once m.board) {ids : List PieceId}
    (hids : Resolving.victims m c = .ok ids) : PiecesOnce m.board ids := by
  cases c with
  | players xs =>
    cases hids
    rw [List.map_filterMap]
    refine ⟨List.Nodup.filterMap (fun x y id hx hy => ?_) h, fun id hid => ?_⟩
    · obtain ⟨p, hp, rfl⟩ := Option.map_eq_some_iff.1 hx
      obtain ⟨q, hq, hid⟩ := Option.map_eq_some_iff.1 hy
      obtain ⟨hheld, rfl⟩ := hb.exists_of_coreOf? hp
      obtain ⟨hheld', rfl⟩ := hb.exists_of_coreOf? hq
      rw [hid, hheld] at hheld'
      cases hheld'
      rfl
    · obtain ⟨x, -, hx⟩ := List.mem_filterMap.1 hid
      obtain ⟨p, hp, rfl⟩ := Option.map_eq_some_iff.1 hx
      exact Board.contains_of_get? (hb.exists_of_coreOf? hp).1
  | pieces | hexes | cards => exact h.piecesIn hb hids

theorem Once.hexesIn (hb : m.board.Sound) (h : c.Once m.board) {xs : List Hex}
    (hxs : c.hexesIn m = .ok xs) : xs.Nodup := by
  cases c with
  | hexes => cases hxs; exact h
  | pieces ids =>
    cases hxs
    rw [List.map_filterMap]
    refine List.Nodup.filterMap (fun x y hex hx hy => ?_) h.1
    obtain ⟨p, hp, rfl⟩ := Option.map_eq_some_iff.1 hx
    obtain ⟨q, hq, hhex⟩ := Option.map_eq_some_iff.1 hy
    exact congrArg Prod.fst
      (hb.eq_of_hex (Board.mem_of_get? hp) (Board.mem_of_get? hq) hhex.symm)
  | cards | players => cases hxs

theorem Once.distinct (hb : m.board.Sound) (h : c.Once m.board) : c.Distinct m where
  once := h
  pieces _ := h.piecesIn hb
  victims _ := h.victims hb
  cells _ := h.hexesIn hb

end Collection

/-! ### What targets stand for -/

namespace Resolving
variable {α β : Type} {b : Board}

/-- On that board, every run that ends well ends with what is so. -/
def Ends (b : Board) (Q : α → Stage → Prop) (r : Resolving α) : Prop :=
  ∀ ctx s x s', s.game.board = b → (r.run ctx).run s = .ok (x, s') → Q x.1 s'

/-- On that board, every run that ends well leaves the board as it is and yields what is so. -/
def Yields (b : Board) (P : α → Prop) (r : Resolving α) : Prop :=
  Ends b (fun a s' => s'.game.board = b ∧ P a) r

namespace Ends
variable {P : α → Prop} {Q : α → Stage → Prop}

theorem pure {a : α} (h : P a) : Yields b P (Pure.pure a : Resolving α) := by
  intro ctx s x s' hs hrun
  cases hrun
  exact ⟨hs, h⟩

theorem fail (f : Fault) : Ends b Q (throw f : Resolving α) := by
  intro ctx s x s' hs hrun
  cases hrun

theorem outcome (x : Outcome α) : Yields b (x = .ok ·) (liftM x : Resolving α) := by
  cases x with
  | ok a => exact pure rfl
  | error f => exact fail f

theorem look {k : Match → Resolving α} (hk : ∀ m : Match, m.board = b → Ends b Q (k m)) :
    Ends b Q (game >>= k) := fun ctx s x s' hs hrun => hk s.game hs ctx s x s' hs hrun

theorem context {k : Context → Resolving α} (hk : ∀ ctx, Ends b Q (k ctx)) :
    Ends b Q (MonadState.get >>= k) := fun ctx s x s' hs hrun => hk ctx ctx s x s' hs hrun

/-- Whatever only looks into the match leaves the board as it is. -/
theorem of_peruses {r : Resolving α} (hr : Peruses true true r) : Yields b (fun _ => True) r := by
  intro ctx s x s' hs hrun
  exact ⟨(hr ctx s x s' hrun).1.board.trans hs, trivial⟩

end Ends

theorem Yields.next {P : α → Prop} {Q : β → Stage → Prop} {r : Resolving α}
    {k : α → Resolving β} (hr : Yields b P r) (hk : ∀ a, P a → Ends b Q (k a)) :
    Ends b Q (r >>= k) := by
  intro ctx s x s' hs hrun
  obtain ⟨a, ctx₁, s₁, hfirst, hrest⟩ := run_bind hrun
  obtain ⟨hs₁, ha⟩ := hr ctx s (a, ctx₁) s₁ hs hfirst
  exact hk a ha ctx₁ s₁ x s' hs₁ hrest

theorem yields_pickFrom {xs : List α} (hxs : xs.Nodup) (count : Nat) :
    Yields b (fun ys => ys.Nodup ∧ ∀ y ∈ ys, y ∈ xs) (pickFrom count xs) := by
  intro ctx s x s' hs hrun
  cases hrun
  exact ⟨hs, Generator.nodup_pick hxs count _, fun _ h => mem_of_mem_pick h⟩

theorem yields_random {c : Collection} (hc : c.Once b) (count : Nat) :
    Yields b (·.Once b) (random count c) := by
  have hpick : Yields b (·.Once b) (pick count c) := by
    cases c with
    | cards => exact (Ends.of_peruses (peruses_pickFrom count _)).next fun _ _ => .pure trivial
    | pieces =>
      exact (yields_pickFrom hc.1 count).next fun _ h =>
        .pure ⟨h.1, fun id hid => hc.2 id (h.2 id hid)⟩
    | players | hexes => exact (yields_pickFrom hc count).next fun _ h => .pure h.1
  refine hpick.next fun picked hpicked => ?_
  refine (Ends.of_peruses (Peruses.note _)).next fun _ _ => .look fun m _ => ?_
  dsimp only
  split
  · exact .pure hpicked
  · exact (Ends.of_peruses (Peruses.change fun m => .addLog m _ _ _)).next fun _ _ =>
      .pure hpicked

theorem once_named {m : Match} (hb : m.board.Sound) (c : Collection) (choice : Choice) :
    (named m c choice).Once m.board := by
  cases choice with
  | hex hex =>
    unfold named
    dsimp only
    split
    · rename_i id hat
      obtain ⟨p, hp, -⟩ := hb.exists_of_idAt? hat
      exact ⟨List.nodup_singleton _,
        fun _ h => List.mem_singleton.1 h ▸ Board.contains_of_get? hp⟩
    · exact List.nodup_singleton _
  | card id =>
    unfold named
    dsimp only
    split <;> trivial

theorem yields_choose (hb : b.Sound) {c : Collection} (hc : c.Once b) :
    Yields b (·.Once b) (choose c) := by
  have hconsult : Yields b (·.Once b) (consult c) := by
    rintro ctx s x s' rfl hrun
    cases consulted hrun with
    | answered => exact ⟨rfl, once_named hb c _⟩
    | waiting | refused | suspended => exact ⟨rfl, Collection.once_emptied c⟩
  unfold choose
  split
  · exact .fail _
  · refine .context fun ctx => ?_
    split
    · exact yields_random hc 1
    · exact hconsult

theorem once_controllers {m : Match} {c : Collection} {owners : List Color}
    (h : controllers m c = .ok owners) : owners.Nodup := by
  have hnone : ∀ x : Option Color, x.toList.Nodup := fun x => by cases x <;> simp
  unfold controllers at h
  split at h
  · cases h; exact hnone _
  · cases h; exact hnone _
  · cases h
  · cases h; exact .nil

/-- By recursion on targets inside targets only: of conditions and players it matters no more than
that finding them out leaves the board as it is. -/
theorem yields_resolve (hb : b.Sound) : (t : Target) → Yields b (·.Once b) (resolve t)
  | .all inner => yields_resolve hb inner
  | .choose inner => (yields_resolve hb inner).next fun _ hc => yields_choose hb hc
  | .random count pool => (yields_resolve hb pool).next fun _ hc => yields_random hc count
  | .allTiles => .pure Hex.nodup_all
  | .cardsInHand player _ =>
    (Ends.of_peruses (peruses_resolve player (fun _ => rfl) fun _ => rfl)).next fun _ _ =>
      (Ends.outcome _).next fun _ _ => .look fun _ _ => .pure trivial
  | .piecesInPlay _ => .look fun _ hm => .pure
    (Collection.piecesOnce_of_sublist hb (hm ▸ List.filter_sublist))
  | .piecesMatching _ conditions =>
    (Ends.of_peruses (peruses_compileAll conditions (fun _ => rfl) fun _ => rfl)).next
      fun _ _ => .look fun _ hm => (Ends.outcome _).next fun _ hfound => .pure
        (Collection.piecesOnce_of_sublist hb
          (hm ▸ (Outcome.keep_sublist hfound).trans List.filter_sublist))
  | .tilesMatching conditions =>
    (Ends.of_peruses (peruses_compileAll conditions (fun _ => rfl) fun _ => rfl)).next
      fun _ _ => .look fun _ _ => (Ends.outcome _).next fun _ hfound => .pure
        ((Outcome.keep_sublist hfound).nodup Hex.nodup_all)
  | .it | .that | .they | .thisPiece =>
    .look fun m hm => .context fun _ => .pure (hm ▸ Collection.once_ofSalient m _)
  | .allPlayers => .look fun m _ => .pure (by cases m.turn <;> simp [Collection.Once, Color.opponent])
  | .selfPlayer | .opponent | .salientPlayer =>
    .context fun _ => .look fun _ _ => .pure (List.nodup_singleton _)
  | .controllerOf inner =>
    (yields_resolve hb inner).next fun _ _ => .look fun _ _ => (Ends.outcome _).next
      fun _ howners => .pure (once_controllers howners)
  | .copyOf inner =>
    (yields_resolve hb inner).next fun _ _ => .look fun _ _ => (Ends.outcome _).next
      fun template _ => by
        cases template with
        | none => exact .pure trivial
        | some c =>
          exact (Ends.of_peruses peruses_freshCardId).next fun _ _ => .pure trivial
  | .generateCard _ _ _ =>
    (Ends.of_peruses peruses_freshCardId).next fun _ _ => .pure trivial

/-- The objects that a target stands for. -/
theorem yields_resolvePieces (hb : b.Sound) (t : Target) :
    Yields b (Collection.PiecesOnce b) (resolvePieces t) :=
  (yields_resolve hb t).next fun _ hc => .look fun _ hm => by
    subst hm
    intro ctx s x s' hs hrun
    obtain ⟨hboard, hids⟩ := Ends.outcome _ ctx s x s' hs hrun
    exact ⟨hboard, hc.piecesIn hb hids⟩

/-! ### Objects that are worked on one at a time -/

/-- A pass over objects: each in turn is on the board and is worked on while it can be spoken
of. -/
inductive Visits (work : PieceId → Context → Play Unit) (ctx : Context) :
    List PieceId → Stage → Stage → Prop where
  | nil (s : Stage) : Visits work ctx [] s s
  | cons {id : PieceId} {ids : List PieceId} {s s₁ s' : Stage} :
    s.game.board.contains id = true →
    (work id { ctx with iteratee := some (.piece id) }).run s = .ok ((), s₁) →
    Visits work ctx ids s₁ s' → Visits work ctx (id :: ids) s s'

variable {work : PieceId → Context → Play Unit}

/-- It makes no difference what was spoken of before. -/
theorem Visits.outer {ctx : Context} {spoken : Option Salient} {ids : List PieceId} {s s' : Stage}
    (h : Visits work { ctx with iteratee := spoken } ids s s') : Visits work ctx ids s s' := by
  induction h with
  | nil s => exact .nil s
  | cons hon hwork _ ih => exact .cons hon hwork ih

/-- One object after the other is visited, unless it has left the board by then. -/
theorem visits_forM {ids : List PieceId} {ctx : Context} {s s' : Stage} {x : Unit × Context}
    (h : ((ids.forM fun id => do
      if (← game).board.contains id then do
        modify fun ctx => { ctx with iteratee := some (.piece id) }
        let ctx ← get
        (work id ctx : Play Unit) : Resolving Unit).run ctx).run s = .ok (x, s')) :
    ∃ met, met.Sublist ids ∧ Visits work ctx met s s' := by
  induction ids generalizing ctx s with
  | nil =>
    cases h
    exact ⟨[], .slnil, .nil s'⟩
  | cons id ids ih =>
    obtain ⟨u, ctx₁, s₁, hfirst, hrest⟩ := run_bind h
    obtain ⟨met, hmet, hvisits⟩ := ih hrest
    rw [run_look] at hfirst
    split at hfirst
    · rename_i hon
      have hfirst : (work id { ctx with iteratee := some (.piece id) } >>= fun a =>
          Pure.pure (a, { ctx with iteratee := some (.piece id) })).run s
          = .ok ((u, ctx₁), s₁) := hfirst
      obtain ⟨_, _, hwork, hlast⟩ := Play.run_bind hfirst
      cases hlast
      exact ⟨id :: met, hmet.cons_cons id, .cons hon hwork hvisits.outer⟩
    · cases hfirst
      exact ⟨met, hmet.cons id, hvisits⟩

theorem visits_forEachPiece {ids : List PieceId} {ctx : Context} {s s' : Stage}
    {x : Unit × Context} (h : ((forEachPiece ids work).run ctx).run s = .ok (x, s')) :
    ∃ met, met.Sublist ids ∧ Visits work ctx met s s' := by
  have h : (((ids.forM fun id => do
      if (← game).board.contains id then do
        modify fun ctx => { ctx with iteratee := some (.piece id) }
        let ctx ← get
        (work id ctx : Play Unit) : Resolving Unit) >>= fun _ =>
      modify fun ctx' => { ctx' with iteratee := ctx.iteratee }).run
        { ctx with iteratee := none }).run s = .ok (x, s') := h
  obtain ⟨_, _, _, hloop, hlast⟩ := run_bind h
  cases hlast
  obtain ⟨met, hmet, hvisits⟩ := visits_forM hloop
  exact ⟨met, hmet, hvisits.outer⟩

/-- Folds an adjustment into the numbers of an object. -/
def adjustPiece (run : Runner) (scope : Scope) (adjustment : Adjustment) (id : PieceId)
    (ctx : Context) : Play Unit := do
  match ← Play.piece? id with
  | none => pure ()
  | some p =>
    let stats ← adjustStats adjustment scope.attributes p.stats
    Play.change (·.changePiece id (·.setStats stats))
  Play.destroyIfDoomed run id none ctx

/-- The actions that work on objects one at a time, with the work on each. -/
inductive Works (run : Runner) : Action → (PieceId → Context → Play Unit) → Prop where
  | dealDamage (target : Target) (amount : Number) (damage : Int) :
    Works run (.dealDamage target amount) fun id ctx => Play.dealDamage run id damage none ctx
  | destroy (target : Target) :
    Works run (.destroy target) fun id ctx => do
      Play.change (·.changePiece id (·.condemn))
      Play.destroyIfDoomed run id none ctx
  | giveAbility (target : Target) (ability : Sentence) (lasting duration : Option Nat) :
    Works run (.giveAbility target ability lasting) fun id ctx =>
      Play.install run id ability none duration ctx
  | modifyAttribute (target : Target) (scope : Scope) (modifier : Modifier)
    (adjustment : Adjustment) :
    Works run (.modifyAttribute target scope modifier) (adjustPiece run scope adjustment)
  | setAttribute (target : Target) (scope : Scope) (value : Number) (number : Int) :
    Works run (.setAttribute target scope value) (adjustPiece run scope (.set number))
  | swapAttributes (target : Target) (first second : Attribute) :
    Works run (.swapAttributes target first second) fun id ctx => do
      Play.change (·.changePiece id (·.swap first second))
      Play.destroyIfDoomed run id none ctx

/-- The action has done its work on objects of that board, on none of them twice, and had changed
nothing on the board before; or it was for cards and has touched no object. -/
def WorksOnce (run : Runner) (a : Action) (b : Board) (s' : Stage) : Prop :=
  (∃ work met ctx s, Works run a work ∧ s.game.board = b ∧ Collection.PiecesOnce b met ∧
    Visits work ctx met s s') ∨ s'.game.board = b

section
variable {run : Runner} {a : Action}

theorem ends_forEachPiece {ids : List PieceId} (ha : Works run a work)
    (hids : Collection.PiecesOnce b ids) :
    Ends b (fun _ => WorksOnce run a b) (forEachPiece ids work) := by
  intro ctx s x s' hs hrun
  obtain ⟨met, hmet, hvisits⟩ := visits_forEachPiece hrun
  exact .inl ⟨work, met, ctx, s, ha, hs,
    ⟨hmet.nodup hids.1, fun id hid => hids.2 id (hmet.subset hid)⟩, hvisits⟩

/-- Cards in hand are adjusted without touching the board. -/
theorem yields_adjustHandCard (scope : Scope) (adjustment : Adjustment) (id : CardId) :
    Yields b (fun _ => True) (adjustHandCard scope adjustment id) := by
  refine .look fun m _ => ?_
  dsimp only
  split
  · exact .pure trivial
  · split
    · exact .pure trivial
    · refine (Ends.outcome _).next fun c _ => ?_
      intro ctx s x s' hs hrun
      cases hrun
      exact ⟨hs, trivial⟩

theorem yields_adjustHandCards (scope : Scope) (adjustment : Adjustment) (cards : List Card) :
    Yields b (fun _ => True) (cards.forM fun c => adjustHandCard scope adjustment c.id) := by
  induction cards with
  | nil => exact .pure trivial
  | cons c cards ih => exact (yields_adjustHandCard scope adjustment c.id).next fun _ _ => ih

theorem ends_modifyAttribute {c : Collection} (hc : c.Once b) {scope : Scope}
    {adjustment : Adjustment} (ha : Works run a (adjustPiece run scope adjustment)) :
    Ends b (fun _ => WorksOnce run a b) (modifyAttribute run c scope adjustment) := by
  cases c with
  | pieces ids => exact ends_forEachPiece ha hc
  | cards cards =>
    intro ctx s x s' hs hrun
    exact .inr (yields_adjustHandCards scope adjustment cards ctx s x s' hs hrun).1
  | players | hexes => exact .fail _

theorem ends_execute (hb : b.Sound) (ha : Works run a work) :
    Ends b (fun _ => WorksOnce run a b) (execute run a) := by
  cases ha <;> unfold execute
  case dealDamage target amount _ =>
    exact (yields_resolve hb target).next fun _ hc =>
      (Ends.of_peruses (peruses_evaluate amount (fun _ => rfl) fun _ => rfl)).next fun n _ =>
        .look fun m hm => (Ends.outcome _).next fun _ hids =>
          ends_forEachPiece (.dealDamage target amount n) (by subst hm; exact hc.victims hb hids)
  case destroy target =>
    exact (yields_resolvePieces hb target).next fun _ hids =>
      ends_forEachPiece (.destroy target) hids
  case giveAbility target ability lasting _ =>
    exact (yields_resolvePieces hb target).next fun _ hids => .context fun ctx =>
      ends_forEachPiece (.giveAbility target ability lasting _) hids
  case modifyAttribute target scope modifier _ =>
    exact (yields_resolve hb target).next fun _ hc =>
      (Ends.of_peruses ((peruses_evaluate modifier.number (fun _ => rfl) fun _ => rfl).next
        fun _ => .pure _)).next fun adjustment _ =>
          ends_modifyAttribute hc (.modifyAttribute target scope modifier adjustment)
  case setAttribute target scope value _ =>
    exact (yields_resolve hb target).next fun _ hc =>
      (Ends.of_peruses (peruses_evaluate value (fun _ => rfl) fun _ => rfl)).next fun n _ =>
        ends_modifyAttribute hc (.setAttribute target scope value n)
  case swapAttributes target first second =>
    exact (yields_resolvePieces hb target).next fun _ hids =>
      ends_forEachPiece (.swapAttributes target first second) hids

/-- At every stage of a command, what a target stands for names no object, cell or player twice, and
its objects are on the board; so are the objects on its cells and the cores of its players, and none
of them twice. An action that works on objects one at a time works on none of them twice. -/
theorem met_once {s : Stage} (hs : s.Underway) :
    (∀ (t : Target) (ctx : Context) (c : Collection) (ctx' : Context) (s' : Stage),
      ((resolve t).run ctx).run s = .ok ((c, ctx'), s') →
        s'.game.board = s.game.board ∧ c.Distinct s'.game) ∧
    ∀ (run : Runner) (a : Action) (work : PieceId → Context → Play Unit) (ctx : Context)
      (x : Unit × Context) (s' : Stage), Works run a work →
        ((execute run a).run ctx).run s = .ok (x, s') → WorksOnce run a s.game.board s' := by
  have hb := hs.board_sound
  refine ⟨fun t ctx c ctx' s' hrun => ?_, fun run a work ctx x s' ha hrun => ?_⟩
  · obtain ⟨hboard, honce⟩ := yields_resolve hb t ctx s (c, ctx') s' rfl hrun
    exact ⟨hboard, Collection.Once.distinct (hboard ▸ hb) (hboard ▸ honce)⟩
  · exact ends_execute hb ha ctx s x s' rfl hrun

/-- Blue has just put a robot on the board. Three objects at random, and damage to both players,
which is done to their cores. -/
theorem met_once_solo : ∃ (s : Stage) (c : Collection) (ctx : Context) (s' : Stage),
    s.Underway ∧
    ((resolve (.random 3 (.piecesInPlay .any))).run (.command .blue)).run s
      = .ok ((c, ctx), s') ∧ c.size = 3 ∧ c.Distinct s'.game ∧
    ∃ (x : Unit × Context) (s'' : Stage),
      ((execute (Play.runner 1) (.dealDamage .allPlayers (.const 1))).run (.command .blue)).run s
        = .ok (x, s'') ∧
      s''.game.board.pieces.map (·.stats.health) = [19, 19, 1] ∧
      WorksOnce (Play.runner 1) (.dealDamage .allPlayers (.const 1)) s.game.board s'' := by
  have hrun : ((MatchSetup.solo []).start.holds fun m =>
      (((executeAll (Play.runner 1) [.making .robot (.still 1)]).run
        (.command .blue)).run ⟨m, []⟩).holds fun z =>
      (((resolve (.random 3 (.piecesInPlay .any))).run (.command .blue)).run z.2).holds
        (fun y => y.1.1.size == 3) &&
      (((execute (Play.runner 1) (.dealDamage .allPlayers (.const 1))).run
        (.command .blue)).run z.2).holds fun y =>
          y.2.game.board.pieces.map (·.stats.health) == [19, 19, 1]) = true := by decide +kernel
  obtain ⟨m, hstart, hrun⟩ := Outcome.exists_of_holds hrun
  obtain ⟨⟨_, s⟩, hmake, hrun⟩ := Outcome.exists_of_holds hrun
  obtain ⟨hpick, hhurt⟩ := Bool.and_eq_true_iff.1 hrun
  obtain ⟨⟨⟨c, ctx⟩, s'⟩, hpick, hsize⟩ := Outcome.exists_of_holds hpick
  obtain ⟨⟨x, s''⟩, hhurt, hhealth⟩ := Outcome.exists_of_holds hhurt
  have hs : s.Underway := (Stage.Underway.rest (.start hstart)).executed hmake
  obtain ⟨hresolve, hexecute⟩ := met_once hs
  exact ⟨s, c, ctx, s', hs, hpick, eq_of_beq hsize, (hresolve _ _ _ _ _ hpick).2, x, s'',
    hhurt, eq_of_beq hhealth, hexecute _ _ _ _ _ _ (.dealDamage .allPlayers (.const 1) 1) hhurt⟩

end

end Resolving
end HexDuel
