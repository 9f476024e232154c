import HexDuel.Proofs.Upholding

/-!
What targets, conditions and numbers stand for is found by computations that uphold a creed, and what
is found abides by it.
-/

set_option autoImplicit false

namespace HexDuel

open Outcome (Meets)

variable {K : Creed} {strict : Bool}

/-! ### Random numbers -/

namespace Generator

theorem seed_drawWithin (n tries : Nat) (g : Generator) :
    (drawWithin n tries g).2.seed = g.seed := by
  induction tries generalizing g with
  | zero => rfl
  | succ tries ih =>
    simp only [drawWithin]
    split
    · rfl
    · exact ih _

theorem seed_draw (g : Generator) (n : Nat) : (g.draw n).2.seed = g.seed :=
  seed_drawWithin n 1024 g

theorem seed_pick {α : Type} (count : Nat) (xs : List α) (g : Generator) :
    (pick count xs g).2.seed = g.seed := by
  induction count generalizing xs g with
  | zero => rfl
  | succ count ih =>
    cases xs with
    | nil => rfl
    | cons x xs =>
      unfold pick
      dsimp only
      split
      · exact seed_draw g _
      · exact (ih _ _).trans (seed_draw g _)

end Generator

/-! ### Collections -/

namespace Collection

theorem abides_emptied (c : Collection) : c.emptied.Abides K := by
  cases c with
  | players => trivial
  | _ => exact fun _ h => nomatch h

theorem Abides.meets_hexesIn {c : Collection} (h : c.Abides K) {m : Match} (hm : m.Abides K) :
    Meets (fun hexes => ∀ x ∈ hexes, x.Fits) (c.hexesIn m) := by
  cases c with
  | pieces ids =>
    refine List.forall_mem_map.2 fun p hp => ?_
    obtain ⟨id, _, hget⟩ := List.mem_filterMap.1 hp
    exact (hm.board.get? hget).2.hex
  | hexes xs => exact h
  | _ => exact fun heq => nomatch heq

theorem Abides.meets_piecesIn {c : Collection} (h : c.Abides K) {m : Match} (hm : m.Abides K) :
    Meets (fun ids => ∀ id ∈ ids, FitsId id) (c.piecesIn m) := by
  cases c with
  | pieces ids => exact h
  | hexes xs =>
    intro id hid
    obtain ⟨hex, _, hat⟩ := List.mem_filterMap.1 hid
    obtain ⟨p, hp, rfl⟩ := Option.map_eq_some_iff.1 hat
    exact (hm.board.pieceAt? hp).id
  | _ => exact fun heq => nomatch heq

theorem Abides.meets_valuesIn {c : Collection} (h : c.Abides K) {m : Match} (hm : m.Abides K)
    (stat : Attribute) : Meets (fun values => ∀ i ∈ values, Fits32 i) (c.valuesIn m stat) := by
  cases c with
  | pieces ids =>
    refine Meets.mapM fun p hp => ?_
    obtain ⟨id, _, hget⟩ := List.mem_filterMap.1 hp
    exact (hm.board.get? hget).2.meets_value stat
  | cards xs =>
    refine List.forall_mem_map.2 fun c hc => ?_
    cases hvalue : c.stats.bind (·.get stat) with
    | none => exact fits32_zero
    | some i =>
      obtain ⟨s, hs, hi⟩ := Option.bind_eq_some_iff.1 hvalue
      exact ((h c hc).stats s hs).get hi
  | _ => exact fun heq => nomatch heq

theorem meets_asPlayers (c : Collection) : Meets (fun _ => True) c.asPlayers := by
  cases c with
  | players => trivial
  | _ => exact fun heq => nomatch heq

theorem Abides.meets_asCards {c : Collection} (h : c.Abides K) :
    Meets (fun cards => ∀ card ∈ cards, card.Abides K) c.asCards := by
  cases c with
  | cards xs => exact h
  | _ => exact fun heq => nomatch heq

theorem Abides.meets_asCells {c : Collection} (h : c.Abides K) :
    Meets (fun hexes => ∀ x ∈ hexes, x.Fits) c.asCells := by
  cases c with
  | hexes xs => exact h
  | _ => exact fun heq => nomatch heq

end Collection

/-! ### Predicates -/

namespace Predicate

/-- A predicate never fails for the depth of what is followed. -/
theorem meets_holds (q : Predicate) (h : Hex) {o : Option Piece} (ho : ∀ p ∈ o, p.Abides K) :
    Meets (fun _ => True) (q.holds h o) := by
  cases o with
  | none =>
    cases q with
    | controlledBy player => cases player <;> trivial
    | _ => trivial
  | some p =>
    have hp := ho p rfl
    cases q with
    | controlledBy player => cases player <;> trivial
    | attributeIs stat comparison value =>
      refine (hp.meets_value? stat).bind fun o _ => ?_
      cases o <;> trivial
    | hasProperty property => exact hp.meets_has property
    | _ => trivial

theorem meets_allHold (ps : List Predicate) (h : Hex) {o : Option Piece}
    (ho : ∀ p ∈ o, p.Abides K) : Meets (fun _ => True) (allHold ps h o) :=
  Meets.all fun q _ => q.meets_holds h ho

end Predicate

namespace Resolving

/-! ### Picks and choices -/

theorem upholds_pickFrom {α : Type} (count : Nat) (xs : List α) :
    Upholds K strict (fun picked => ∀ a ∈ picked, a ∈ xs) (pickFrom count xs) := by
  refine .look fun m hm => ?_
  have hseed : (Generator.pick count xs m.random).2.seed < Width.end64 := by
    rw [Generator.seed_pick]
    exact hm.seed
  have hdrawn : ∀ m' : Match, m'.Abides K →
      { m' with random := (Generator.pick count xs m.random).2 }.Abides K :=
    fun _ hm' => { hm' with seed := hseed }
  exact (Upholds.change hdrawn).next fun _ _ => .pure fun _ ha => mem_of_mem_pick ha

theorem upholds_pick (count : Nat) {c : Collection} (h : c.Abides K) :
    Upholds K strict (·.Abides K) (pick count c) := by
  cases c with
  | players xs => exact (upholds_pickFrom count xs).next fun _ _ => .pure trivial
  | cards xs | pieces xs | hexes xs =>
    exact (upholds_pickFrom count xs).next fun _ hpicked => .pure fun a ha => h a (hpicked a ha)

theorem abides_cardsShown {m : Match} (hm : m.Abides K) {c : Collection} (h : c.Abides K) :
    ∀ card ∈ cardsShown m c, card.Abides K := by
  cases c with
  | cards xs => exact h
  | pieces ids =>
    refine List.forall_mem_map.2 fun p hp => ?_
    obtain ⟨id, _, hget⟩ := List.mem_filterMap.1 hp
    exact (hm.board.get? hget).2.card
  | _ => exact fun _ hc => nomatch hc

theorem upholds_random (count : Nat) {c : Collection} (h : c.Abides K) :
    Upholds K strict (·.Abides K) (random count c) := by
  refine (upholds_pick count h).next fun picked hpicked => ?_
  refine (Upholds.note (.picked picked)).next fun _ _ => .look fun m hm => ?_
  dsimp only
  split
  · exact .pure hpicked
  · have hshown := abides_cardsShown hm hpicked
    exact (Upholds.change fun _ hm' => hm'.addLog _ _ hshown).next fun _ _ => .pure hpicked

theorem fits_offer {b : Board} (hb : b.Abides K) {c : Collection} (h : c.Abides K) :
    (offer b c).Fits := by
  have hnone : ∀ choice ∈ Selection.none.chosen, choice.Fits := Selection.fits_none.chosen
  cases c with
  | pieces ids =>
    refine ⟨List.forall_mem_map.2 fun p hp => ?_, hnone⟩
    obtain ⟨id, _, hget⟩ := List.mem_filterMap.1 (List.mem_filter.1 hp).1
    exact (hb.get? hget).2.hex
  | hexes xs => exact ⟨fun x hx => h x (List.mem_filter.1 hx).1, hnone⟩
  | _ => exact ⟨fun _ hx => (nomatch hx), hnone⟩

theorem abides_named {m : Match} (hm : m.Abides K) {candidates : Collection}
    (h : candidates.Abides K) {choice : Choice} (hchoice : choice.Fits) :
    (named m candidates choice).Abides K := by
  cases choice with
  | hex x =>
    unfold named
    dsimp only
    split
    · rename_i id hat
      obtain ⟨p, hp, rfl⟩ := Option.map_eq_some_iff.1 hat
      exact List.forall_mem_singleton.2 (hm.board.pieceAt? hp).id
    · exact List.forall_mem_singleton.2 hchoice
  | card id =>
    unfold named
    dsimp only
    split
    · rename_i c hfound
      refine List.forall_mem_singleton.2 ?_
      obtain hamong | ⟨-, hheld⟩ := Option.or_eq_some_iff.1 hfound
      · cases candidates with
        | cards xs => exact h c (List.mem_of_find?_eq_some hamong)
        | _ => cases hamong
      · exact hm.cardsInHands c (List.mem_of_find?_eq_some hheld)
    · exact fun _ hc => nomatch hc

theorem abides_salientOf {c : Collection} (h : c.Abides K) : ∀ x ∈ salientOf c, x.Abides K := by
  unfold salientOf
  split
  · exact fun x hx => Option.some.inj hx ▸ trivial
  · rename_i card
    exact fun x hx => Option.some.inj hx ▸ h card List.mem_cons_self
  · exact fun _ hx => nomatch hx

theorem upholds_answer (player : Color) {choice : Choice} (hchoice : choice.Fits)
    {later : List Choice} (hlater : ∀ c ∈ later, c.Fits) {candidates : Collection}
    (h : candidates.Abides K) :
    Upholds K strict (·.Abides K) (answer player choice later candidates) := by
  refine .look fun m hm => ?_
  have hfound := abides_named hm h hchoice
  have hselection : { (m.seat player).selection with chosen := later }.Fits :=
    { (hm.seats player).selection with chosen := hlater }
  refine (Upholds.change fun _ hm' => hm'.setSelection player hselection).next fun _ _ => ?_
  refine (Upholds.note _).next fun _ _ => ?_
  refine (Upholds.salience fun ctx hctx => ?_).next fun _ _ => .pure hfound
  exact { hctx with it := Context.Abides.or (abides_salientOf hfound) hctx.it }

theorem upholds_ask (player : Color) {candidates : Collection} (h : candidates.Abides K) :
    Upholds K strict (·.Abides K) (ask player candidates) := by
  refine .look fun m hm => ?_
  dsimp only
  split
  · exact .pure candidates.abides_emptied
  · split
    · exact (Upholds.change fun _ hm' => hm'.refuse (r := .noValidTargets) trivial).next fun _ _ =>
        .pure candidates.abides_emptied
    · have hselection : { offer m.board candidates with
          chosen := (m.seat player).selection.chosen }.Fits :=
        { fits_offer hm.board h with chosen := (hm.seats player).selection.chosen }
      refine (Upholds.change fun _ hm' => hm'.setSelection player hselection).next fun _ _ => ?_
      exact (Upholds.note _).next fun _ _ => .pure candidates.abides_emptied

theorem upholds_consult {candidates : Collection} (h : candidates.Abides K) :
    Upholds K strict (·.Abides K) (consult candidates) := by
  refine .look fun m hm => ?_
  split
  · rename_i choice later hchosen
    have hfits := (hm.seats m.turn).selection.chosen
    rw [hchosen] at hfits
    obtain ⟨hchoice, hlater⟩ := List.forall_mem_cons.1 hfits
    exact upholds_answer m.turn hchoice hlater h
  · exact upholds_ask m.turn h

theorem upholds_choose {candidates : Collection} (h : candidates.Abides K) :
    Upholds K strict (·.Abides K) (choose candidates) := by
  unfold choose
  split
  · exact .fail fun heq => nomatch heq
  · refine .context fun ctx _ => ?_
    split
    · exact upholds_random 1 h
    · exact upholds_consult h

/-! ### Fabricated cards -/

theorem upholds_freshCardId : Upholds K strict (fun _ => True) freshCardId := fun ctx hctx =>
  Play.Upholds.next (k := fun n => pure (s!"token/{n}", ctx)) .freshId fun _ _ =>
    .pure ⟨trivial, hctx⟩

theorem upholds_copyOf {template : Option Card} (h : ∀ c ∈ template, c.Abides K) :
    Upholds K strict (·.Abides K) (copyOf template) := by
  cases template with
  | none => exact .pure fun _ hc => nomatch hc
  | some c =>
    refine upholds_freshCardId.next fun id _ => .pure (List.forall_mem_singleton.2 ?_)
    have hc := h c rfl
    exact { hc with cost := hc.baseCost, costAdjustments := fun _ ha => nomatch ha }

theorem upholds_generate (type : CardType) {stats : Stats} (h : stats.Fits)
    (name : Option String) : Upholds K strict (·.Abides K) (generate type stats name) := by
  refine upholds_freshCardId.next fun id _ => .pure (List.forall_mem_singleton.2 ?_)
  exact {
    baseCost := fits32_zero
    cost := fits32_zero
    stats := fun _ hs => Option.some.inj hs ▸ h
    sentences := fun _ hs => nomatch hs
    enters := fun _ hs => nomatch hs
    costAdjustments := fun _ ha => nomatch ha }

theorem meets_template {m : Match} (hm : m.Abides K) {c : Collection} (h : c.Abides K) :
    Meets (fun o => ∀ card ∈ o, card.Abides K) (template m c) := by
  cases c with
  | pieces ids =>
    intro card hcard
    obtain ⟨p, hp, rfl⟩ := Option.map_eq_some_iff.1 hcard
    obtain ⟨id, _, hget⟩ := Option.bind_eq_some_iff.1 hp
    exact (hm.board.get? hget).2.card
  | cards xs => exact fun card hcard => h card (List.mem_of_mem_head? hcard)
  | _ => exact fun heq => nomatch heq

theorem meets_controllers (m : Match) (c : Collection) :
    Meets (fun _ => True) (controllers m c) := by
  unfold controllers
  split
  · trivial
  · trivial
  · exact fun heq => nomatch heq
  · trivial

/-! ### The phrases -/

theorem abides_hexes {hexes : List Hex} (h : ∀ x ∈ hexes, x ∈ Hex.all) :
    (Collection.hexes hexes).Abides K := fun x hx => Hex.fits_of_mem_all (h x hx)

theorem abides_pieces {m : Match} (hm : m.Abides K) {ps : List Piece}
    (h : ∀ p ∈ ps, p ∈ m.board.pieces) : (Collection.pieces (ps.map (·.id))).Abides K :=
  List.forall_mem_map.2 fun p hp => (hm.board.pieces p (h p hp)).id

mutual

theorem upholds_resolve : (t : Target) → t.Fits → Upholds K strict (·.Abides K) (resolve t)
  | .allTiles, _ => .pure (abides_hexes fun _ hx => hx)
  | .cardsInHand player types, h =>
    (upholds_resolve player h).next fun c _ =>
      (Upholds.outcome c.meets_asPlayers).next fun _ _ => .look fun m hm => .pure fun card hcard => by
        obtain ⟨c, _, hheld⟩ := List.mem_flatMap.1 (List.mem_filter.1 hcard).1
        exact (hm.seats c).hand card hheld
  | .piecesInPlay types, _ =>
    .look fun m hm => .pure (abides_pieces hm fun _ hp => (List.mem_filter.1 hp).1)
  | .piecesMatching types conditions, h =>
    (upholds_compileAll conditions h).next fun predicates _ => .look fun m hm => by
      have hcandidates : ∀ p ∈ m.board.pieces.filter (types.admits ·.type), p.Abides K :=
        fun p hp => hm.board.pieces p (List.mem_filter.1 hp).1
      have hkeep := Meets.keep fun p hp => Predicate.meets_allHold predicates p.hex
        (o := some p) fun _ hq => Option.some.inj hq ▸ hcandidates p hp
      exact (Upholds.outcome hkeep).next fun found hfound =>
        .pure (abides_pieces hm fun p hp => (List.mem_filter.1 (hfound p hp)).1)
  | .tilesMatching conditions, h =>
    (upholds_compileAll conditions h).next fun predicates _ => .look fun m hm => by
      have hkeep := Meets.keep fun x (_ : x ∈ Hex.all) => Predicate.meets_allHold predicates x
        (o := m.board.pieceAt? x) fun _ hp => hm.board.pieceAt? hp
      exact (Upholds.outcome hkeep).next fun _ hfound => .pure (abides_hexes hfound)
  | .all inner, h => upholds_resolve inner h
  | .choose inner, h => (upholds_resolve inner h).next fun _ hc => upholds_choose hc
  | .random count pool, h => (upholds_resolve pool h.2).next fun _ hc => upholds_random count hc
  | .it, _ => .look fun _ hm => .context fun _ hctx =>
    .pure (Collection.abides_ofSalient hm hctx.itNow)
  | .that, _ => .look fun _ hm => .context fun _ hctx =>
    .pure (Collection.abides_ofSalient hm hctx.thatNow)
  | .they, _ => .look fun _ hm => .context fun _ hctx =>
    .pure (Collection.abides_ofSalient hm hctx.theyNow)
  | .thisPiece, _ => .look fun _ hm => .context fun ctx _ =>
    .pure (Collection.abides_ofSalient hm (Context.Abides.current ctx))
  | .allPlayers, _ => .look fun _ _ => .pure trivial
  | .selfPlayer, _ | .opponent, _ | .salientPlayer, _ =>
    .context fun _ _ => .look fun _ _ => .pure trivial
  | .controllerOf inner, h =>
    (upholds_resolve inner h).next fun c _ => .look fun m _ =>
      (Upholds.outcome (meets_controllers m c)).next fun _ _ => .pure trivial
  | .copyOf inner, h =>
    (upholds_resolve inner h).next fun _ hc => .look fun _ hm =>
      (Upholds.outcome (meets_template hm hc)).next fun _ ht => upholds_copyOf ht
  | .generateCard type stats name, h => upholds_generate type h name

theorem upholds_compile :
    (c : Condition) → c.Fits → Upholds K strict (fun _ => True) (compile c)
  | .adjacentTo target, h =>
    (upholds_resolve target h).next fun _ hc => .look fun _ hm =>
      (Upholds.outcome (hc.meets_hexesIn hm)).next fun _ _ => .pure trivial
  | .attributeIs _ _ value, h => (upholds_evaluate value h).next fun _ _ => .pure trivial
  | .controlledBy target, h =>
    (upholds_resolve target h).next fun c _ =>
      (Upholds.outcome c.meets_asPlayers).next fun _ _ => .pure trivial
  | .exactDistance _ target, h | .withinDistance _ target, h =>
    (upholds_resolve target h.2).next fun _ hc => .look fun _ hm =>
      (Upholds.outcome (hc.meets_hexesIn hm)).next fun _ _ => .pure trivial
  | .hasId _, _ | .hasProperty _, _ | .unoccupied, _ => .pure trivial

theorem upholds_compileAll :
    (cs : List Condition) → ConditionsFit cs → Upholds K strict (fun _ => True) (compileAll cs)
  | [], _ => .pure trivial
  | c :: cs, h =>
    (upholds_compile c h.1).next fun _ _ => (upholds_compileAll cs h.2).next fun _ _ =>
      .pure trivial

theorem upholds_evaluate : (n : Number) → n.Fits → Upholds K strict Fits32 (evaluate n)
  | .const _, h => .pure h
  | .count target, h =>
    (upholds_resolve target h).next fun c _ => .pure (Outcome.fits32_wrap32 c.size)
  | .attributeSum target stat, h =>
    (upholds_resolve target h).next fun _ hc => .look fun _ hm =>
      (Upholds.outcome (hc.meets_valuesIn hm stat)).next fun _ _ =>
        .outcome (Meets.foldlM (fun _ _ _ _ => Outcome.meets_int32 _) fits32_zero)
  | .attributeValue target stat, h =>
    (upholds_resolve target h).next fun _ hc => .look fun _ hm =>
      (Upholds.outcome (hc.meets_valuesIn hm stat)).next fun values hvalues => .pure (by
        cases values with
        | nil => exact fits32_zero
        | cons i _ => exact hvalues i List.mem_cons_self)

end

theorem upholds_evaluateState {c : StateCondition} (h : c.Fits) :
    Upholds K strict (fun _ => True) (evaluateState c) := by
  cases c with
  | collectionExists target => exact (upholds_resolve target h).next fun _ _ => .pure trivial
  | targetHasProperty target property =>
    refine (upholds_resolve target h).next fun _ hc => .look fun _ hm =>
      (Upholds.outcome (hc.meets_piecesIn hm)).next fun ids _ => .outcome (Meets.all fun p hp => ?_)
    obtain ⟨id, _, hget⟩ := List.mem_filterMap.1 hp
    exact (hm.board.get? hget).2.meets_has property

theorem upholds_resolveModifier {modifier : Modifier} (h : modifier.Fits) :
    Upholds K strict (·.Fits) (resolveModifier modifier) :=
  (upholds_evaluate _ h).next fun i hi => .pure (by cases modifier <;> exact hi)

theorem upholds_resolvePieces {target : Target} (h : target.Fits) :
    Upholds K strict (fun ids => ∀ id ∈ ids, FitsId id) (resolvePieces target) :=
  (upholds_resolve target h).next fun _ hc => .look fun _ hm => .outcome (hc.meets_piecesIn hm)

theorem upholds_resolveCells {target : Target} (h : target.Fits) :
    Upholds K strict (fun hexes => ∀ x ∈ hexes, x.Fits) (resolveCells target) :=
  (upholds_resolve target h).next fun _ hc => .outcome hc.meets_asCells

theorem upholds_resolvePlayers {target : Target} (h : target.Fits) :
    Upholds K strict (fun _ => True) (resolvePlayers target) :=
  (upholds_resolve target h).next fun c _ => .outcome c.meets_asPlayers

end Resolving
end HexDuel
