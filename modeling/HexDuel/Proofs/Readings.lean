import HexDuel.Proofs.Distinct
import HexDuel.Proofs.Ways

/-!
Targets, conditions and numbers read directly off a match: a target as a collection, a condition as a
property of a cell and the object on it, a number as a number. Where nothing is chosen, picked or
made, whatever is found when a phrase is looked into is what is read.
-/

set_option autoImplicit false

namespace HexDuel

/-! ### Outcomes -/

namespace Outcome
variable {α β : Type}

/-- What is found, or else that. -/
def getD (x : Outcome α) (default : α) : α :=
  match x with
  | .ok a => a
  | .error _ => default

theorem map_eq_ok_iff {x : Outcome α} {f : α → β} {b : β} :
    x.map f = .ok b ↔ ∃ a, x = .ok a ∧ f a = b := by
  cases x <;> simp [Except.map]

/-- What is found is that, unless a number leaves its width, which takes that case. -/
def Barring (E : Prop) (a : α) (x : Outcome α) : Prop := x = .ok a ∨ x = .error .overflow ∧ E

namespace Barring
variable {E : Prop} {a : α} {x : Outcome α}

theorem bind {b : β} {k : α → Outcome β} (hx : Barring E a x) (hk : Barring E b (k a)) :
    Barring E b (x >>= k) := by
  obtain rfl | ⟨rfl, hE⟩ := hx
  · exact hk
  · exact .inr ⟨rfl, hE⟩

theorem ok_eq {b : α} (hx : Barring E a x) (h : x = .ok b) : b = a := by
  obtain rfl | ⟨rfl, -⟩ := hx
  · exact (Except.ok.inj h).symm
  · cases h

theorem keep {test : α → Outcome Bool} {f : α → Bool} {xs : List α}
    (h : ∀ x ∈ xs, Barring E (f x) (test x)) : Barring E (xs.filter f) (Outcome.keep test xs) := by
  induction xs with
  | nil => exact .inl rfl
  | cons x xs ih =>
    obtain ⟨hfirst, hrest⟩ := List.forall_mem_cons.1 h
    refine hfirst.bind ((ih hrest).bind (.inl ?_))
    rw [List.filter_cons]
    rfl

theorem all {test : α → Outcome Bool} {f : α → Bool} {xs : List α}
    (h : ∀ x ∈ xs, Barring E (f x) (test x)) : Barring E (xs.all f) (Outcome.all test xs) := by
  induction xs with
  | nil => exact .inl rfl
  | cons x xs ih =>
    obtain ⟨hfirst, hrest⟩ := List.forall_mem_cons.1 h
    refine hfirst.bind ?_
    rw [List.all_cons]
    cases f x with
    | true => exact ih hrest
    | false => exact .inl rfl

end Barring

theorem keep_congr {test test' : α → Outcome Bool} {xs : List α}
    (h : ∀ x ∈ xs, test x = test' x) : keep test xs = keep test' xs := by
  induction xs with
  | nil => rfl
  | cons x xs ih =>
    obtain ⟨hfirst, hrest⟩ := List.forall_mem_cons.1 h
    simp only [keep, hfirst, ih hrest]

/-- A sum that keeps to its width is the sum. -/
theorem eq_foldl_add {xs : List Int} {i j : Int}
    (h : xs.foldlM (fun sum v => int32 (sum + v)) i = .ok j) : j = xs.foldl (· + ·) i := by
  induction xs generalizing i with
  | nil => cases h; rfl
  | cons x xs ih =>
    rw [List.foldlM_cons] at h
    obtain ⟨k, hk, h⟩ := exists_of_bind h
    obtain ⟨rfl, -⟩ := int32_eq_ok_iff.1 hk
    exact ih h

end Outcome

/-! ### Readings -/

namespace Collection

/-- The cells that distances are measured from; none if it has no cells. -/
def anchors (m : Match) (c : Collection) : List Hex := (c.hexesIn m).getD []

def owners (c : Collection) : List Color := c.asPlayers.getD []

def numbers (m : Match) (stat : Attribute) (c : Collection) : List Int :=
  (c.valuesIn m stat).getD []

end Collection

/-- What conditions are put to: objects of some types, or cells. -/
inductive Query where
  | pieces (types : TypeQuery)
  | tiles

namespace Query

def matching : Query → List Condition → Target
  | .pieces types, conditions => .piecesMatching types conditions
  | .tiles, conditions => .tilesMatching conditions

/-- The entries that pass the test: objects in the order of the board, cells in their own. -/
def select (m : Match) (test : Hex → Option Piece → Bool) : Query → Collection
  | .pieces types => .pieces ((m.board.pieces.filter fun p =>
      types.admits p.type && test p.hex (some p)).map (·.id))
  | .tiles => .hexes (Hex.all.filter fun h => test h (m.board.pieceAt? h))

end Query

mutual

/-- What a target stands for, read off the match. Choices and random picks are not read, nor are
cards made. -/
def Target.reading (m : Match) (ctx : Context) : Target → Collection
  | .allTiles => .hexes Hex.all
  | .cardsInHand player types => .cards (((player.reading m ctx).owners.flatMap fun c =>
      (m.seat c).hand).filter (types.admits ·.type))
  | .piecesInPlay types => (Query.pieces types).select m fun _ _ => true
  | .piecesMatching types conditions =>
    (Query.pieces types).select m fun h p => allMet m ctx conditions h p
  | .tilesMatching conditions => Query.tiles.select m fun h p => allMet m ctx conditions h p
  | .all inner | .choose inner | .random _ inner => inner.reading m ctx
  | .it => .ofSalient m ctx.itNow
  | .that => .ofSalient m ctx.thatNow
  | .they => .ofSalient m ctx.theyNow
  | .thisPiece => .ofSalient m (ctx.current.map .piece)
  | .allPlayers => .players [m.turn, m.turn.opponent]
  | .selfPlayer => .players [ctx.controllerIn m]
  | .opponent => .players [(ctx.controllerIn m).opponent]
  | .salientPlayer => .players [ctx.salientPlayer.getD m.turn.opponent]
  | .controllerOf inner => .players ((Resolving.controllers m (inner.reading m ctx)).getD [])
  | .copyOf _ | .generateCard _ _ _ => .cards []

/-- Whether a cell with that object on it meets a condition, read off the match. -/
def Condition.met (m : Match) (ctx : Context) : Condition → Hex → Option Piece → Bool
  | .adjacentTo target, h, _ => ((target.reading m ctx).anchors m).any fun a => h.distance a == 1
  | .attributeIs stat comparison value, _, o => o.any fun p =>
      ((p.value? stat).getD none).any fun actual => comparison.holds actual (value.reading m ctx)
  | .controlledBy target, _, o => o.any fun p =>
      (target.reading m ctx).owners.head?.any fun c => p.owner == c
  | .exactDistance distance target, h, _ =>
    ((target.reading m ctx).anchors m).any fun a => h.distance a == distance
  | .withinDistance distance target, h, _ =>
    ((target.reading m ctx).anchors m).any fun a => h.distance a ≤ distance
  | .hasId id, _, o => o.any fun p => p.id == id
  | .hasProperty property, _, o => o.any fun p => (p.has property).getD false
  | .unoccupied, _, o => o.isNone

def allMet (m : Match) (ctx : Context) : List Condition → Hex → Option Piece → Bool
  | [], _, _ => true
  | c :: cs, h, o => c.met m ctx h o && allMet m ctx cs h o

/-- The number that is meant, read off the match. -/
def Number.reading (m : Match) (ctx : Context) : Number → Int
  | .const value => value
  | .count target => Outcome.wrap32 (target.reading m ctx).size
  | .attributeSum target stat => ((target.reading m ctx).numbers m stat).foldl (· + ·) 0
  | .attributeValue target stat => ((target.reading m ctx).numbers m stat).headD 0

end

theorem allMet_eq (m : Match) (ctx : Context) (cs : List Condition) (h : Hex) (o : Option Piece) :
    allMet m ctx cs h o = cs.all (·.met m ctx h o) := by
  induction cs with
  | nil => rfl
  | cons c cs ih => rw [allMet, ih, List.all_cons]

/-- Putting a condition to an object looks at the object's own numbers, which may leave their
width. -/
def Condition.asks (m : Match) (ctx : Context) : Condition → Hex → Option Piece → Outcome Bool
  | .attributeIs stat comparison value, _, some p => do
    match ← p.value? stat with
    | some actual => return comparison.holds actual (value.reading m ctx)
    | none => return false
  | .hasProperty property, _, some p => p.has property
  | c, h, o => .ok (c.met m ctx h o)

/-! ### Numbers that leave their width -/

/-- A number of an object leaves its width. -/
def Board.Outgrown (b : Board) : Prop :=
  ∃ p ∈ b.pieces, ∃ stat, p.value? stat = .error .overflow

theorem Adjustment.overflow_of_apply {a : Adjustment} {i : Int} {f : Fault}
    (h : a.apply i = .error f) : f = .overflow := by
  cases a with
  | add | subtract | multiply | set => cases h
  | divide n =>
    simp only [apply, raw] at h
    split at h
    · cases h
    · unfold Outcome.int32 at h
      split at h <;> cases h
      rfl

theorem Adjustment.overflow_of_applyAll {as : List Adjustment} {i : Int} {f : Fault}
    (h : applyAll as i = .error f) : f = .overflow := by
  induction as generalizing i with
  | nil => cases h
  | cons a as ih =>
    rw [applyAll, List.foldlM_cons] at h
    cases hfirst : a.apply i with
    | error f' =>
      rw [hfirst] at h
      cases h
      exact overflow_of_apply hfirst
    | ok j =>
      rw [hfirst] at h
      exact ih h

theorem Piece.barring_value? {m : Match} {p : Piece} (hp : p ∈ m.board.pieces) (stat : Attribute) :
    Outcome.Barring m.board.Outgrown ((p.value? stat).getD none) (p.value? stat) := by
  cases h : p.value? stat with
  | ok x => exact .inl rfl
  | error f =>
    have hover : f = .overflow := by
      unfold Piece.value? at h
      split at h
      · cases h
      · rename_i base _
        cases hall : Adjustment.applyAll (p.adjustmentsOf stat) base with
        | ok => rw [hall] at h; cases h
        | error f' =>
          rw [hall] at h
          cases h
          exact Adjustment.overflow_of_applyAll hall
    subst hover
    exact .inr ⟨rfl, p, hp, stat, h⟩

theorem Piece.barring_has {m : Match} {p : Piece} (hp : p ∈ m.board.pieces) (property : Property) :
    Outcome.Barring m.board.Outgrown ((p.has property).getD false) (p.has property) := by
  cases property with
  | isDamaged =>
    have hrun : p.has .isDamaged = p.value? .health >>= fun x =>
        .ok (decide (x.getD 0 < p.card.baseHealth)) := by
      show ((p.value? .health).map _ >>= _) = _
      cases p.value? .health <;> rfl
    rw [hrun]
    obtain h | ⟨h, hout⟩ := barring_value? hp .health
    · rw [h]; exact .inl rfl
    · rw [h]; exact .inr ⟨rfl, hout⟩
  | _ => exact .inl rfl

/-- Putting a condition to an object comes to reading it. -/
theorem Condition.barring_asks (m : Match) (ctx : Context) (c : Condition) (h : Hex)
    {o : Option Piece} (ho : ∀ p ∈ o, p ∈ m.board.pieces) :
    Outcome.Barring m.board.Outgrown (c.met m ctx h o) (c.asks m ctx h o) := by
  cases c with
  | attributeIs stat comparison value =>
    cases o with
    | none => exact .inl rfl
    | some p =>
      refine (Piece.barring_value? (ho p rfl) stat).bind (.inl ?_)
      simp only [met, Option.any_some]
      cases (p.value? stat).getD none <;> rfl
  | hasProperty property =>
    cases o with
    | none => exact .inl rfl
    | some p => exact Piece.barring_has (ho p rfl) property
  | _ => exact .inl rfl

/-! ### Putting conditions -/

namespace Query

/-- The entries that pass a test that may fail. -/
def found (m : Match) (ask : Hex → Option Piece → Outcome Bool) : Query → Outcome Collection
  | .pieces types => do
    let found ← Outcome.keep (fun p => ask p.hex (some p))
      (m.board.pieces.filter (types.admits ·.type))
    return .pieces (found.map (·.id))
  | .tiles => do return .hexes (← Outcome.keep (fun h => ask h (m.board.pieceAt? h)) Hex.all)

variable {m : Match} {ask ask' : Hex → Option Piece → Outcome Bool}

/-- Only cells of the board are tested. -/
theorem found_congr (hcells : ∀ e ∈ m.board.entries, e.2.hex ∈ Hex.all)
    (h : ∀ hex ∈ Hex.all, ∀ o, ask hex o = ask' hex o) (q : Query) :
    q.found m ask = q.found m ask' := by
  cases q with
  | pieces types =>
    have hkeep : Outcome.keep (fun p => ask p.hex (some p))
        (m.board.pieces.filter (types.admits ·.type)) =
        Outcome.keep (fun p => ask' p.hex (some p))
          (m.board.pieces.filter (types.admits ·.type)) := Outcome.keep_congr fun p hp => by
      obtain ⟨e, he, rfl⟩ := List.mem_map.1 (List.mem_filter.1 hp).1
      exact h _ (hcells e he) _
    rw [found, hkeep]
    rfl
  | tiles =>
    have hkeep : Outcome.keep (fun hex => ask hex (m.board.pieceAt? hex)) Hex.all =
        Outcome.keep (fun hex => ask' hex (m.board.pieceAt? hex)) Hex.all :=
      Outcome.keep_congr fun hex hhex => h hex hhex _
    rw [found, hkeep]
    rfl

theorem barring_found {E : Prop} {test : Hex → Option Piece → Bool}
    (h : ∀ hex o, (∀ p ∈ o, p ∈ m.board.pieces) → Outcome.Barring E (test hex o) (ask hex o))
    (q : Query) : Outcome.Barring E (q.select m test) (q.found m ask) := by
  cases q with
  | pieces types =>
    refine (Outcome.Barring.keep fun p hp => h p.hex (some p) ?_).bind (.inl ?_)
    · intro p' hp'
      obtain rfl := Option.mem_some_iff.1 hp'
      exact (List.mem_filter.1 hp).1
    · rw [List.filter_filter]
      simp only [select, Bool.and_comm]
      rfl
  | tiles =>
    refine (Outcome.Barring.keep fun hex _ => h hex (m.board.pieceAt? hex) ?_).bind (.inl rfl)
    exact fun p hp => (Board.mem_of_pieceAt? hp).1

/-- The entries to which all conditions are put are those that meet each of them. -/
theorem barring_asked (m : Match) (ctx : Context) (cs : List Condition) (q : Query) :
    Outcome.Barring m.board.Outgrown (q.select m fun h o => cs.all (·.met m ctx h o))
      (q.found m fun h o => Outcome.all (·.asks m ctx h o) cs) :=
  barring_found (fun h _ ho => .all fun c _ => c.barring_asks m ctx h ho) q

end Query

/-! ### What computations find -/

namespace Resolving
variable {α β : Type} {ctx : Context} {s : Stage}

/-- What a computation finds at a stage, whatever it changes. -/
def findsAt (ctx : Context) (s : Stage) (r : Resolving α) : Outcome α :=
  ((r.run ctx).run s).map (·.1.1)

theorem findsAt_of_run {r : Resolving α} {a : α} {ctx' : Context} {s' : Stage}
    (h : (r.run ctx).run s = .ok ((a, ctx'), s')) : r.findsAt ctx s = .ok a := by
  rw [findsAt, h]
  rfl

/-- What changes nothing is told by what it finds. -/
theorem Peruses.run_eq {r : Resolving α} (hr : Peruses false false r) (ctx : Context) (s : Stage) :
    (r.run ctx).run s = (r.findsAt ctx s).map fun a => ((a, ctx), s) := by
  unfold findsAt
  cases hrun : (r.run ctx).run s with
  | error f => rfl
  | ok x =>
    obtain ⟨⟨a, ctx'⟩, s'⟩ := x
    obtain ⟨-, hctx, hquiet⟩ := hr ctx s (a, ctx') s' hrun
    obtain rfl : ctx' = ctx := hctx.2 rfl
    obtain rfl := hquiet rfl rfl
    rfl

theorem findsAt_bind {r : Resolving α} (hr : Peruses false false r) (k : α → Resolving β)
    (ctx : Context) (s : Stage) :
    (r >>= k).findsAt ctx s = r.findsAt ctx s >>= fun a => (k a).findsAt ctx s := by
  have hrun : ((r >>= k).run ctx).run s =
      (r.run ctx).run s >>= fun x => ((k x.1.1).run x.1.2).run x.2 := rfl
  rw [findsAt, hrun, hr.run_eq]
  cases r.findsAt ctx s <;> rfl

theorem findsAt_next {r : Resolving α} (hr : Peruses false false r) {a : α}
    (ha : r.findsAt ctx s = .ok a) (k : α → Resolving β) :
    (r >>= k).findsAt ctx s = (k a).findsAt ctx s := by
  rw [findsAt_bind hr, ha]
  rfl

theorem of_findsAt_bind {r : Resolving α} {k : α → Resolving β} {b : β}
    (hr : Peruses false false r) (h : (r >>= k).findsAt ctx s = .ok b) :
    ∃ a, r.findsAt ctx s = .ok a ∧ (k a).findsAt ctx s = .ok b := by
  rw [findsAt_bind hr] at h
  exact Outcome.exists_of_bind h

theorem of_findsAt_lift {x : Outcome α} {k : α → Resolving β} {b : β}
    (h : ((liftM x : Resolving α) >>= k).findsAt ctx s = .ok b) :
    ∃ a, x = .ok a ∧ (k a).findsAt ctx s = .ok b := by
  cases x with
  | ok a => exact ⟨a, rfl, h⟩
  | error f => cases h

theorem findsAt_look (k : Match → Resolving β) :
    (game >>= k).findsAt ctx s = (k s.game).findsAt ctx s := rfl

/-! ### Phrases that only look -/

theorem quiet_resolve {t : Target} (hp : t.mentions Target.isPick = false)
    (hm : t.mentions Target.isMade = false) : Peruses false false (resolve t) :=
  peruses_resolve t hp.symm.trans hm.symm.trans

theorem quiet_compile {c : Condition} (hp : c.mentions Target.isPick = false)
    (hm : c.mentions Target.isMade = false) : Peruses false false (compile c) :=
  peruses_compile c hp.symm.trans hm.symm.trans

theorem quiet_compileAll {cs : List Condition} (hp : anyMentions Target.isPick cs = false)
    (hm : anyMentions Target.isMade cs = false) : Peruses false false (compileAll cs) :=
  peruses_compileAll cs hp.symm.trans hm.symm.trans

theorem quiet_evaluate {n : Number} (hp : n.mentions Target.isPick = false)
    (hm : n.mentions Target.isMade = false) : Peruses false false (evaluate n) :=
  peruses_evaluate n hp.symm.trans hm.symm.trans

end Resolving

/-! ### Anchors -/

/-- All its cells are cells of the board. -/
def Collection.OnCells : Collection → Prop
  | .hexes xs => ∀ x ∈ xs, x ∈ Hex.all
  | _ => True

namespace Target
variable {m : Match}

theorem onCells_reading (m : Match) (ctx : Context) : (t : Target) → (t.reading m ctx).OnCells
  | .allTiles => fun _ => id
  | .tilesMatching _ => fun _ hx => (List.mem_filter.1 hx).1
  | .all inner | .choose inner | .random _ inner => onCells_reading m ctx inner
  | .it | .that | .they | .thisPiece => by
    unfold reading Collection.ofSalient
    split
    · split <;> trivial
    · trivial
    · trivial
  | .cardsInHand _ _ | .piecesInPlay _ | .piecesMatching _ _ | .allPlayers | .selfPlayer
  | .opponent | .salientPlayer | .controllerOf _ | .copyOf _ | .generateCard _ _ _ => trivial

/-- Distances are measured from cells of the board. -/
theorem mem_all_of_anchor (hcells : ∀ e ∈ m.board.entries, e.2.hex ∈ Hex.all) (ctx : Context)
    (t : Target) {a : Hex} (ha : a ∈ (t.reading m ctx).anchors m) : a ∈ Hex.all := by
  have hon := onCells_reading m ctx t
  cases hc : t.reading m ctx with
  | hexes xs =>
    rw [hc] at ha hon
    exact hon a ha
  | pieces ids =>
    rw [hc] at ha
    obtain ⟨p, hp, rfl⟩ := List.mem_map.1 ha
    obtain ⟨id, -, hget⟩ := List.mem_filterMap.1 hp
    exact hcells (id, p) (Board.mem_of_get? hget)
  | cards | players => rw [hc] at ha; cases ha

end Target

/-- The neighbours of some cells are the cells at a distance of one from some of them. -/
theorem Hex.contains_neighbors {xs : List Hex} (hxs : ∀ x ∈ xs, x ∈ all) {h : Hex} (hh : h ∈ all) :
    (xs.flatMap neighbors).contains h = xs.any fun a => h.distance a == 1 := by
  rw [Bool.eq_iff_iff, List.contains_iff_mem, List.mem_flatMap, List.any_eq_true]
  refine exists_congr fun a => and_congr_right fun ha => ?_
  rw [mem_neighbors_iff (hxs a ha), adjacent, distance_comm]
  exact and_iff_right hh

theorem Hex.contains_filter_all {test : Hex → Bool} {h : Hex} (hh : h ∈ all) :
    (all.filter test).contains h = test h := by
  rw [Bool.eq_iff_iff, List.contains_iff_mem, List.mem_filter]
  exact and_iff_right hh

/-! ### What is found is what is read -/

namespace Resolving
variable {ctx : Context} {s : Stage}

/-- The conditions are found out first and then put to one entry after the other. -/
theorem findsAt_matching {cs : List Condition} (hp : anyMentions Target.isPick cs = false)
    (hm : anyMentions Target.isMade cs = false) (q : Query) :
    (resolve (q.matching cs)).findsAt ctx s =
      (compileAll cs).findsAt ctx s >>= fun ps => q.found s.game (Predicate.allHold ps) := by
  have hlift : ∀ {α : Type} (x : Outcome α) (f : α → Collection),
      ((liftM x : Resolving α) >>= fun a => pure (f a)).findsAt ctx s =
        x >>= fun a => pure (f a) := fun x f => by cases x <;> rfl
  cases q with
  | pieces types | tiles =>
    rw [Query.matching, resolve, findsAt_bind (quiet_compileAll hp hm)]
    refine bind_congr fun ps => ?_
    rw [findsAt_look]
    exact hlift _ _

theorem reads_matching (hcells : ∀ e ∈ s.game.board.entries, e.2.hex ∈ Hex.all)
    {cs : List Condition} (hp : anyMentions Target.isPick cs = false)
    (hm : anyMentions Target.isMade cs = false)
    (hread : ∀ {ps : List Predicate}, (compileAll cs).findsAt ctx s = .ok ps →
      ∀ h ∈ Hex.all, ∀ o, Predicate.allHold ps h o = Outcome.all (·.asks s.game ctx h o) cs)
    {q : Query} {c : Collection} (h : (resolve (q.matching cs)).findsAt ctx s = .ok c) :
    c = q.select s.game fun h o => allMet s.game ctx cs h o := by
  rw [findsAt_matching hp hm] at h
  obtain ⟨ps, hps, h⟩ := Outcome.exists_of_bind h
  rw [Query.found_congr hcells (hread hps)] at h
  simp only [allMet_eq]
  exact (Query.barring_asked s.game ctx cs q).ok_eq h

/-- A condition on distances is compiled from the anchors that are read. -/
theorem reads_anchors {target : Target} (hquiet : Peruses false false (resolve target))
    (hread : ∀ {c : Collection}, (resolve target).findsAt ctx s = .ok c →
      c = target.reading s.game ctx) {k : List Hex → Predicate} {p : Predicate}
    (h : (do
      let collection ← resolve target
      return k (← collection.hexesIn (← game)) : Resolving Predicate).findsAt ctx s = .ok p) :
    p = k ((target.reading s.game ctx).anchors s.game) := by
  obtain ⟨c, htarget, h⟩ := of_findsAt_bind hquiet h
  obtain rfl := hread htarget
  rw [findsAt_look] at h
  obtain ⟨xs, hxs, h⟩ := of_findsAt_lift h
  cases h
  rw [Collection.anchors, hxs]
  rfl

mutual

theorem reads_resolve (hcells : ∀ e ∈ s.game.board.entries, e.2.hex ∈ Hex.all) :
    (t : Target) → t.mentions Target.isPick = false → t.mentions Target.isMade = false →
    ∀ {c : Collection}, (resolve t).findsAt ctx s = .ok c → c = t.reading s.game ctx
  | .cardsInHand player types, hp, hm, c, h => by
    obtain ⟨_, hplayer, h⟩ := of_findsAt_bind (quiet_resolve (t := player) hp hm) h
    obtain rfl := reads_resolve hcells player hp hm hplayer
    obtain ⟨players, hplayers, h⟩ := of_findsAt_lift h
    cases h
    simp only [Target.reading, Collection.owners, hplayers]
    rfl
  -- Conditions are read by their own recursion, and a query from what they are read as.
  | .piecesMatching types conditions, hp, hm, c, h =>
    reads_matching hcells hp hm (reads_compileAll hcells conditions hp hm) (q := .pieces types) h
  | .tilesMatching conditions, hp, hm, c, h =>
    reads_matching hcells hp hm (reads_compileAll hcells conditions hp hm) (q := .tiles) h
  | .all inner, hp, hm, c, h => reads_resolve hcells inner hp hm h
  | .controllerOf inner, hp, hm, c, h => by
    obtain ⟨_, hinner, h⟩ := of_findsAt_bind (quiet_resolve (t := inner) hp hm) h
    obtain rfl := reads_resolve hcells inner hp hm hinner
    rw [findsAt_look] at h
    obtain ⟨players, hplayers, h⟩ := of_findsAt_lift h
    cases h
    simp only [Target.reading, hplayers]
    rfl
  | .piecesInPlay types, _, _, c, h => by
    cases h
    simp [Target.reading, Query.select]
  | .choose _, hp, _, _, _ | .random _ _, hp, _, _, _ => nomatch hp
  | .copyOf _, _, hm, _, _ | .generateCard _ _ _, _, hm, _, _ => nomatch hm
  | .allTiles, _, _, _, h | .it, _, _, _, h | .that, _, _, _, h | .they, _, _, _, h
  | .thisPiece, _, _, _, h | .allPlayers, _, _, _, h | .selfPlayer, _, _, _, h
  | .opponent, _, _, _, h | .salientPlayer, _, _, _, h => (Except.ok.inj h).symm

theorem reads_compile (hcells : ∀ e ∈ s.game.board.entries, e.2.hex ∈ Hex.all) :
    (c : Condition) → c.mentions Target.isPick = false → c.mentions Target.isMade = false →
    ∀ {p : Predicate}, (compile c).findsAt ctx s = .ok p →
      ∀ h ∈ Hex.all, ∀ o, p.holds h o = c.asks s.game ctx h o
  -- The list of neighbours leaves out cells beyond the edge, and so does the board.
  | .adjacentTo target, hp, hm, p, hrun => by
    obtain rfl := reads_anchors (quiet_resolve hp hm) (reads_resolve hcells target hp hm) hrun
    intro h hh o
    rw [Predicate.holds, Hex.contains_neighbors (fun _ => target.mem_all_of_anchor hcells ctx) hh]
    rfl
  | .attributeIs stat comparison value, hp, hm, p, hrun => by
    obtain ⟨_, hvalue, hrun⟩ := of_findsAt_bind (quiet_evaluate (n := value) hp hm) hrun
    obtain rfl := reads_evaluate hcells value hp hm hvalue
    cases hrun
    intro h _ o
    cases o <;> rfl
  | .controlledBy target, hp, hm, p, hrun => by
    obtain ⟨_, htarget, hrun⟩ := of_findsAt_bind (quiet_resolve (t := target) hp hm) hrun
    obtain rfl := reads_resolve hcells target hp hm htarget
    obtain ⟨xs, hxs, hrun⟩ := of_findsAt_lift hrun
    cases hrun
    intro h _ o
    simp only [Condition.asks, Condition.met, Collection.owners, hxs, Outcome.getD]
    cases o <;> cases xs <;> rfl
  | .exactDistance _ target, hp, hm, p, hrun | .withinDistance _ target, hp, hm, p, hrun => by
    obtain rfl := reads_anchors (quiet_resolve hp hm) (reads_resolve hcells target hp hm) hrun
    intro h hh o
    rw [Predicate.holds, Hex.contains_filter_all hh]
    rfl
  | .hasId id, _, _, p, hrun | .hasProperty _, _, _, p, hrun | .unoccupied, _, _, p, hrun => by
    cases hrun
    intro h _ o
    cases o <;> rfl

theorem reads_compileAll (hcells : ∀ e ∈ s.game.board.entries, e.2.hex ∈ Hex.all) :
    (cs : List Condition) → anyMentions Target.isPick cs = false →
    anyMentions Target.isMade cs = false →
    ∀ {ps : List Predicate}, (compileAll cs).findsAt ctx s = .ok ps →
      ∀ h ∈ Hex.all, ∀ o, Predicate.allHold ps h o = Outcome.all (·.asks s.game ctx h o) cs
  | [], _, _, ps, hrun => by
    cases hrun
    intro _ _ _
    rfl
  | c :: cs, hp, hm, ps, hrun => by
    obtain ⟨hp, hps⟩ := Bool.or_eq_false_iff.1 hp
    obtain ⟨hm, hms⟩ := Bool.or_eq_false_iff.1 hm
    obtain ⟨p, hfirst, hrun⟩ := of_findsAt_bind (quiet_compile hp hm) hrun
    obtain ⟨ps, hrest, hrun⟩ := of_findsAt_bind (quiet_compileAll hps hms) hrun
    cases hrun
    intro h hh o
    have ih := reads_compileAll hcells cs hps hms hrest h hh o
    rw [Predicate.allHold] at ih ⊢
    rw [Outcome.all, Outcome.all, reads_compile hcells c hp hm hfirst h hh o, ih]

theorem reads_evaluate (hcells : ∀ e ∈ s.game.board.entries, e.2.hex ∈ Hex.all) :
    (n : Number) → n.mentions Target.isPick = false → n.mentions Target.isMade = false →
    ∀ {i : Int}, (evaluate n).findsAt ctx s = .ok i → i = n.reading s.game ctx
  | .const _, _, _, i, h => (Except.ok.inj h).symm
  | .count target, hp, hm, i, h => by
    obtain ⟨_, htarget, h⟩ := of_findsAt_bind (quiet_resolve (t := target) hp hm) h
    obtain rfl := reads_resolve hcells target hp hm htarget
    exact (Except.ok.inj h).symm
  | .attributeSum target stat, hp, hm, i, h => by
    obtain ⟨_, htarget, h⟩ := of_findsAt_bind (quiet_resolve (t := target) hp hm) h
    obtain rfl := reads_resolve hcells target hp hm htarget
    rw [findsAt_look] at h
    obtain ⟨xs, hxs, h⟩ := of_findsAt_lift h
    have hsum : xs.foldlM (fun sum v => Outcome.int32 (sum + v)) 0 = .ok i := by
      revert h
      cases xs.foldlM (fun sum v => Outcome.int32 (sum + v)) 0 <;> exact id
    rw [Outcome.eq_foldl_add hsum]
    simp only [Number.reading, Collection.numbers, hxs, Outcome.getD]
  | .attributeValue target stat, hp, hm, i, h => by
    obtain ⟨_, htarget, h⟩ := of_findsAt_bind (quiet_resolve (t := target) hp hm) h
    obtain rfl := reads_resolve hcells target hp hm htarget
    rw [findsAt_look] at h
    obtain ⟨xs, hxs, h⟩ := of_findsAt_lift h
    cases h
    simp only [Number.reading, Collection.numbers, hxs]
    rfl

end

end Resolving
end HexDuel
