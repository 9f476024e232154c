import HexDuel.Proofs.UpholdingTargets

/-!
Finding out what a phrase of the card language stands for. Of the match it can change the random
numbers, the numbers that are handed out, the log, the refusal and the record of the player to
move, and of the context what is salient. Where nothing is chosen or picked at random and no card
is made, it does not even change these.
-/

set_option autoImplicit false

namespace HexDuel

/-! ### What phrases mention -/

/-- A choice or a random pick. -/
def Target.isPick : Target → Bool
  | .choose _ | .random _ _ => true
  | _ => false

/-- A card that is made when it is spoken of. -/
def Target.isMade : Target → Bool
  | .copyOf _ | .generateCard _ _ _ => true
  | _ => false

mutual

/-- Whether a target passes the test, or one inside it. -/
def Target.mentions (test : Target → Bool) : Target → Bool
  | .cardsInHand player types => test (.cardsInHand player types) || player.mentions test
  | .piecesMatching types conditions =>
    test (.piecesMatching types conditions) || anyMentions test conditions
  | .tilesMatching conditions => test (.tilesMatching conditions) || anyMentions test conditions
  | .all inner => test (.all inner) || inner.mentions test
  | .choose inner => test (.choose inner) || inner.mentions test
  | .random count pool => test (.random count pool) || pool.mentions test
  | .controllerOf inner => test (.controllerOf inner) || inner.mentions test
  | .copyOf inner => test (.copyOf inner) || inner.mentions test
  | t => test t

def Condition.mentions (test : Target → Bool) : Condition → Bool
  | .adjacentTo target | .controlledBy target | .exactDistance _ target
  | .withinDistance _ target => target.mentions test
  | .attributeIs _ _ value => value.mentions test
  | .hasId _ | .hasProperty _ | .unoccupied => false

def anyMentions (test : Target → Bool) : List Condition → Bool
  | [] => false
  | c :: cs => c.mentions test || anyMentions test cs

def Number.mentions (test : Target → Bool) : Number → Bool
  | .const _ => false
  | .count target | .attributeSum target _ | .attributeValue target _ => target.mentions test

end

theorem anyMentions_eq_false_iff {test : Target → Bool} {cs : List Condition} :
    anyMentions test cs = false ↔ ∀ c ∈ cs, c.mentions test = false := by
  induction cs with
  | nil => simp [anyMentions]
  | cons c cs ih => simp [anyMentions, ih]

def StateCondition.target : StateCondition → Target
  | .collectionExists target | .targetHasProperty target _ => target

/-! ### What changes -/

namespace Match

theorem setSelection_setSelection (m : Match) (c : Color) (x y : Selection) :
    (m.setSelection c x).setSelection c y = m.setSelection c y := by
  cases c <;> rfl

/-- What is left of the match when a phrase has been looked into: with `picks`, choices and random
picks may have been made, and with `makes`, cards. -/
structure Perused (picks makes : Bool) (m m' : Match) : Prop where
  seats : ∃ selection, m'.seats = (m.setSelection m.turn selection).seats
  seed : m'.random.seed = m.random.seed
  lastId : m.lastId ≤ m'.lastId
  log : m.log <+: m'.log
  rest : { m' with
    seats := m.seats, random := m.random, lastId := m.lastId, log := m.log,
    refusal := m.refusal } = m
  unpicked : picks = false → m'.seats = m.seats ∧ m'.random = m.random ∧ m'.log = m.log ∧
    m'.refusal = m.refusal
  unmade : makes = false → m'.lastId = m.lastId

namespace Perused
variable {picks makes : Bool} {m m' m'' : Match}

theorem refl (m : Match) : m.Perused picks makes m where
  seats := ⟨(m.seat m.turn).selection, by cases h : m.turn <;> simp [setSelection, changeSeat,
    PerSide.modify, seat, PerSide.get]⟩
  seed := rfl
  lastId := Nat.le_refl _
  log := List.prefix_rfl
  rest := rfl
  unpicked _ := ⟨rfl, rfl, rfl, rfl⟩
  unmade _ := rfl

theorem turn (h : m.Perused picks makes m') : m'.turn = m.turn := (congrArg Match.turn h.rest :)

theorem board (h : m.Perused picks makes m') : m'.board = m.board :=
  (congrArg Match.board h.rest :)

theorem trans (h : m.Perused picks makes m') (h' : m'.Perused picks makes m'') :
    m.Perused picks makes m'' where
  seats := by
    obtain ⟨x, hx⟩ := h.seats
    obtain ⟨y, hy⟩ := h'.seats
    refine ⟨y, ?_⟩
    rw [hy, ← setSelection_setSelection m m.turn x y, h.turn]
    simp only [setSelection, changeSeat] at hx ⊢
    rw [hx]
  seed := h'.seed.trans h.seed
  lastId := Nat.le_trans h.lastId h'.lastId
  log := h.log.trans h'.log
  rest := by
    have hrest := h.rest
    rw [← h'.rest] at hrest
    exact hrest
  unpicked hp := by
    obtain ⟨hseats, hrandom, hlog, hrefusal⟩ := h.unpicked hp
    obtain ⟨hseats', hrandom', hlog', hrefusal'⟩ := h'.unpicked hp
    exact ⟨hseats'.trans hseats, hrandom'.trans hrandom, hlog'.trans hlog,
      hrefusal'.trans hrefusal⟩
  unmade hm := (h'.unmade hm).trans (h.unmade hm)

/-- Random numbers are drawn. -/
theorem drawn (m : Match) {g : Generator} (hseed : g.seed = m.random.seed) :
    m.Perused true makes { m with random := g } where
  seats := (refl m : m.Perused true makes m).seats
  seed := hseed
  lastId := Nat.le_refl _
  log := List.prefix_rfl
  rest := rfl
  unpicked h := nomatch h
  unmade _ := rfl

theorem addLog (m : Match) (c : Option Color) (text : String) (cards : List Card) :
    m.Perused true makes (m.addLog c text cards) where
  seats := (refl m : m.Perused true makes m).seats
  seed := rfl
  lastId := Nat.le_refl _
  log := List.prefix_append _ _
  rest := rfl
  unpicked h := nomatch h
  unmade _ := rfl

theorem refused (m : Match) (r : Option Rejection) :
    m.Perused true makes { m with refusal := r } where
  seats := (refl m : m.Perused true makes m).seats
  seed := rfl
  lastId := Nat.le_refl _
  log := List.prefix_rfl
  rest := rfl
  unpicked h := nomatch h
  unmade _ := rfl

theorem selected (m : Match) (selection : Selection) :
    m.Perused true makes (m.setSelection m.turn selection) where
  seats := ⟨selection, rfl⟩
  seed := rfl
  lastId := Nat.le_refl _
  log := List.prefix_rfl
  rest := rfl
  unpicked h := nomatch h
  unmade _ := rfl

/-- A number is handed out. -/
theorem number (s : Stage) : s.game.Perused picks true s.number.game where
  seats := (refl s.game : s.game.Perused picks true s.game).seats
  seed := rfl
  lastId := Nat.le_succ _
  log := List.prefix_rfl
  rest := rfl
  unpicked _ := ⟨rfl, rfl, rfl, rfl⟩
  unmade h := nomatch h

end Perused
end Match

/-- Nothing but what the last choice made salient has changed, and without picks not even that. -/
def Context.Perused (picks : Bool) (ctx ctx' : Context) : Prop :=
  { ctx' with it := ctx.it } = ctx ∧ (picks = false → ctx' = ctx)

namespace Context.Perused
variable {picks : Bool} {ctx ctx' ctx'' : Context}

theorem refl (ctx : Context) : ctx.Perused picks ctx := ⟨rfl, fun _ => rfl⟩

theorem trans (h : ctx.Perused picks ctx') (h' : ctx'.Perused picks ctx'') :
    ctx.Perused picks ctx'' := by
  refine ⟨?_, fun hp => (h'.2 hp).trans (h.2 hp)⟩
  have hctx := h.1
  rw [← h'.1] at hctx
  exact hctx

end Context.Perused

namespace Resolving
variable {α β : Type} {picks makes : Bool}

/-- Every run that ends well leaves the match and the context perused. It leaves no trace when
nothing is picked and no card is made. -/
def Peruses (picks makes : Bool) (r : Resolving α) : Prop :=
  ∀ ctx s x s', (r.run ctx).run s = .ok (x, s') →
    s.game.Perused picks makes s'.game ∧ ctx.Perused picks x.2 ∧
      (picks = false → makes = false → s' = s)

namespace Peruses

theorem of_pick {r : Resolving α} (h : ∀ ctx s x s', (r.run ctx).run s = .ok (x, s') →
    s.game.Perused true makes s'.game ∧ { x.2 with it := ctx.it } = ctx) : Peruses true makes r := by
  intro ctx s x s' hrun
  obtain ⟨hgame, hctx⟩ := h ctx s x s' hrun
  exact ⟨hgame, ⟨hctx, nofun⟩, nofun⟩

theorem picking {r : Resolving α} (h : picks = true) (hr : Peruses true makes r) :
    Peruses picks makes r := h ▸ hr

theorem making {r : Resolving α} (h : makes = true) (hr : Peruses picks true r) :
    Peruses picks makes r := h ▸ hr

theorem pure (a : α) : Peruses picks makes (Pure.pure a : Resolving α) := by
  intro ctx s x s' hrun
  cases hrun
  exact ⟨.refl _, .refl _, fun _ _ => rfl⟩

theorem fail (f : Fault) : Peruses picks makes (throw f : Resolving α) := by
  intro ctx s x s' hrun
  cases hrun

theorem outcome (x : Outcome α) : Peruses picks makes (liftM x : Resolving α) := by
  cases x with
  | ok a => exact pure a
  | error f => exact fail f

theorem next {r : Resolving α} {k : α → Resolving β} (hr : Peruses picks makes r)
    (hk : ∀ a, Peruses picks makes (k a)) : Peruses picks makes (r >>= k) := by
  intro ctx s x s' hrun
  obtain ⟨a, ctx₁, s₁, hfirst, hrest⟩ := run_bind hrun
  obtain ⟨hgame, hctx, hquiet⟩ := hr ctx s (a, ctx₁) s₁ hfirst
  obtain ⟨hgame', hctx', hquiet'⟩ := hk a ctx₁ s₁ x s' hrest
  exact ⟨hgame.trans hgame', hctx.trans hctx', fun hp hm =>
    (hquiet' hp hm).trans (hquiet hp hm)⟩

theorem look {k : Match → Resolving α} (hk : ∀ m, Peruses picks makes (k m)) :
    Peruses picks makes (game >>= k) := fun ctx s x s' hrun => hk s.game ctx s x s' hrun

theorem context {k : Context → Resolving α} (hk : ∀ ctx, Peruses picks makes (k ctx)) :
    Peruses picks makes (MonadState.get >>= k) := fun ctx s x s' hrun => hk ctx ctx s x s' hrun

theorem change {f : Match → Match} (h : ∀ m : Match, m.Perused true makes (f m)) :
    Peruses true makes (Resolving.change f) := of_pick fun ctx s x s' hrun => by
  cases hrun
  exact ⟨h s.game, rfl⟩

theorem note (n : Happening) : Peruses true makes (Resolving.note n) :=
  of_pick fun ctx s x s' hrun => by
    cases hrun
    exact ⟨.refl _, rfl⟩

end Peruses

/-! ### Picks, choices and cards that are made -/

theorem peruses_pickFrom (count : Nat) (xs : List α) : Peruses true makes (pickFrom count xs) :=
  .of_pick fun ctx s x s' hrun => by
    cases hrun
    exact ⟨.drawn s.game (Generator.seed_pick count xs s.game.random), rfl⟩

theorem peruses_random (count : Nat) (c : Collection) : Peruses true makes (random count c) := by
  have hpick : Peruses true makes (pick count c) := by
    cases c <;> exact (peruses_pickFrom count _).next fun _ => .pure _
  refine hpick.next fun picked => (Peruses.note _).next fun _ => .look fun m => ?_
  dsimp only
  split
  · exact .pure _
  · exact (Peruses.change fun m => .addLog m _ _ _).next fun _ => .pure _

theorem peruses_consult (c : Collection) : Peruses true makes (consult c) :=
  .of_pick fun ctx s x s' hrun => by
    cases consulted hrun with
    | answered => exact ⟨.selected _ _, rfl⟩
    | waiting => exact ⟨.refl _, rfl⟩
    | refused => exact ⟨.refused _ _, rfl⟩
    | suspended => exact ⟨.selected _ _, rfl⟩

theorem peruses_choose (c : Collection) : Peruses true makes (choose c) := by
  unfold choose
  split
  · exact .fail _
  · refine .context fun ctx => ?_
    split
    · exact peruses_random 1 c
    · exact peruses_consult c

theorem peruses_freshCardId : Peruses picks true freshCardId := by
  intro ctx s x s' hrun
  obtain ⟨_, s₁, hfresh, hrest⟩ := Play.run_bind hrun
  obtain ⟨_, rfl⟩ := Play.number_of_run hfresh
  cases hrest
  exact ⟨.number s, .refl ctx, nofun⟩

theorem peruses_copyOf (template : Option Card) : Peruses picks true (copyOf template) := by
  cases template with
  | none => exact .pure _
  | some c => exact peruses_freshCardId.next fun _ => .pure _

/-! ### The phrases -/

mutual

theorem peruses_resolve : (t : Target) → (t.mentions Target.isPick = true → picks = true) →
    (t.mentions Target.isMade = true → makes = true) → Peruses picks makes (resolve t)
  | .allTiles, _, _ => .pure _
  | .cardsInHand player _, hp, hm =>
    (peruses_resolve player hp hm).next fun _ => (Peruses.outcome _).next fun _ =>
      .look fun _ => .pure _
  | .piecesInPlay _, _, _ => .look fun _ => .pure _
  | .piecesMatching _ conditions, hp, hm | .tilesMatching conditions, hp, hm =>
    (peruses_compileAll conditions hp hm).next fun _ => .look fun _ =>
      (Peruses.outcome _).next fun _ => .pure _
  | .all inner, hp, hm => peruses_resolve inner hp hm
  | .choose inner, hp, hm =>
    (peruses_resolve inner (fun _ => hp rfl) hm).next fun c => .picking (hp rfl) (peruses_choose c)
  | .random count pool, hp, hm =>
    (peruses_resolve pool (fun _ => hp rfl) hm).next fun c =>
      .picking (hp rfl) (peruses_random count c)
  | .it, _, _ | .that, _, _ | .they, _, _ | .thisPiece, _, _ =>
    .look fun _ => .context fun _ => .pure _
  | .allPlayers, _, _ => .look fun _ => .pure _
  | .selfPlayer, _, _ | .opponent, _, _ | .salientPlayer, _, _ =>
    .context fun _ => .look fun _ => .pure _
  | .controllerOf inner, hp, hm =>
    (peruses_resolve inner hp hm).next fun _ => .look fun _ => (Peruses.outcome _).next fun _ =>
      .pure _
  | .copyOf inner, hp, hm =>
    (peruses_resolve inner hp fun _ => hm rfl).next fun _ => .look fun _ =>
      (Peruses.outcome _).next fun template => .making (hm rfl) (peruses_copyOf template)
  | .generateCard _ _ _, _, hm =>
    .making (hm rfl) (peruses_freshCardId.next fun _ => .pure _)

theorem peruses_compile : (c : Condition) → (c.mentions Target.isPick = true → picks = true) →
    (c.mentions Target.isMade = true → makes = true) → Peruses picks makes (compile c)
  | .adjacentTo target, hp, hm | .exactDistance _ target, hp, hm
  | .withinDistance _ target, hp, hm =>
    (peruses_resolve target hp hm).next fun _ => .look fun _ => (Peruses.outcome _).next fun _ =>
      .pure _
  | .attributeIs _ _ value, hp, hm => (peruses_evaluate value hp hm).next fun _ => .pure _
  | .controlledBy target, hp, hm =>
    (peruses_resolve target hp hm).next fun _ => (Peruses.outcome _).next fun _ => .pure _
  | .hasId _, _, _ | .hasProperty _, _, _ | .unoccupied, _, _ => .pure _

theorem peruses_compileAll : (cs : List Condition) →
    (anyMentions Target.isPick cs = true → picks = true) →
    (anyMentions Target.isMade cs = true → makes = true) → Peruses picks makes (compileAll cs)
  | [], _, _ => .pure _
  | c :: cs, hp, hm =>
    (peruses_compile c (fun h => hp (Bool.or_eq_true_iff.2 (.inl h)))
      fun h => hm (Bool.or_eq_true_iff.2 (.inl h))).next fun _ =>
    (peruses_compileAll cs (fun h => hp (Bool.or_eq_true_iff.2 (.inr h)))
      fun h => hm (Bool.or_eq_true_iff.2 (.inr h))).next fun _ => .pure _

theorem peruses_evaluate : (n : Number) → (n.mentions Target.isPick = true → picks = true) →
    (n.mentions Target.isMade = true → makes = true) → Peruses picks makes (evaluate n)
  | .const _, _, _ => .pure _
  | .count target, hp, hm => (peruses_resolve target hp hm).next fun _ => .pure _
  | .attributeSum target _, hp, hm =>
    (peruses_resolve target hp hm).next fun _ => .look fun _ => (Peruses.outcome _).next fun _ =>
      .outcome _
  | .attributeValue target _, hp, hm =>
    (peruses_resolve target hp hm).next fun _ => .look fun _ => (Peruses.outcome _).next fun _ =>
      .pure _

end

/-- Finding out what a target, a condition, a number or a modifier stands for, or whether a
condition of the match holds, changes nothing else of the match than the random numbers, the numbers
handed out, lines added to the log, the refusal and the record of the player to move, and of the
context what is salient. It does so only for a choice or a random pick, or, with the numbers handed
out, only for a card that is made. -/
theorem phrases_peruse :
    (∀ t : Target, Peruses (t.mentions Target.isPick) (t.mentions Target.isMade) (resolve t)) ∧
    (∀ c : Condition, Peruses (c.mentions Target.isPick) (c.mentions Target.isMade) (compile c)) ∧
    (∀ cs : List Condition,
      Peruses (anyMentions Target.isPick cs) (anyMentions Target.isMade cs) (compileAll cs)) ∧
    (∀ n : Number, Peruses (n.mentions Target.isPick) (n.mentions Target.isMade) (evaluate n)) ∧
    (∀ c : StateCondition, Peruses (c.target.mentions Target.isPick)
      (c.target.mentions Target.isMade) (evaluateState c)) ∧
    ∀ modifier : Modifier, Peruses (modifier.number.mentions Target.isPick)
      (modifier.number.mentions Target.isMade) (resolveModifier modifier) := by
  refine ⟨fun t => peruses_resolve t id id, fun c => peruses_compile c id id,
    fun cs => peruses_compileAll cs id id, fun n => peruses_evaluate n id id, fun c => ?_,
    fun modifier => (peruses_evaluate modifier.number id id).next fun _ => .pure _⟩
  cases c with
  | collectionExists target => exact (peruses_resolve target id id).next fun _ => .pure _
  | targetHasProperty target property =>
    exact (peruses_resolve target id id).next fun _ => .look fun _ =>
      (Peruses.outcome _).next fun _ => .outcome _

/-- A copy of one object at random, of those with more health than cells that blue has named: blue
is asked for a cell on the way, and all that can change does. -/
theorem phrases_peruse_solo : ∃ (s s' : Stage) (x : Collection × Context),
    ((resolve (.copyOf (.random 1 (.piecesMatching .any
      [.attributeIs .health .greaterThan (.count (.choose .allTiles))])))).run
        (.command .blue)).run s = .ok (x, s') ∧
    s.game.random ≠ s'.game.random ∧ s.game.lastId < s'.game.lastId ∧
    s.game.log.length < s'.game.log.length ∧ (s'.game.seat .blue).selection.choosing = true ∧
    s.game.Perused true true s'.game ∧ (Context.command .blue).Perused true x.2 := by
  have hrun : ((MatchSetup.solo []).start.holds fun m => (((resolve (.copyOf (.random 1
      (.piecesMatching .any [.attributeIs .health .greaterThan
        (.count (.choose .allTiles))])))).run (.command .blue)).run ⟨m, []⟩).holds fun y =>
      m.random != y.2.game.random && decide (m.lastId < y.2.game.lastId) &&
        decide (m.log.length < y.2.game.log.length) &&
        (y.2.game.seat .blue).selection.choosing) = true := by decide +kernel
  obtain ⟨m, -, hrun⟩ := Outcome.exists_of_holds hrun
  obtain ⟨⟨x, s'⟩, hresolve, hend⟩ := Outcome.exists_of_holds hrun
  simp only [Bool.and_eq_true, bne_iff_ne, decide_eq_true_eq] at hend
  obtain ⟨hgame, hctx, -⟩ := phrases_peruse.1 _ _ _ _ _ hresolve
  exact ⟨⟨m, []⟩, s', x, hresolve, hend.1.1.1, hend.1.1.2, hend.1.2, hend.2, hgame, hctx⟩

end Resolving
end HexDuel
