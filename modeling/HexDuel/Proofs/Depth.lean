import HexDuel.Command

/-!
Depth is a bound on resources and nothing else: what comes to an end when effects are followed to
one depth comes to the same end when they are followed deeper.
-/

set_option autoImplicit false

namespace HexDuel

variable {α β : Type}

/-! ### Computations -/

namespace Outcome

/-- The second is as the first, unless that gives up for depth. -/
def Deepens (x y : Outcome α) : Prop := x = .error .exhausted ∨ y = x

namespace Deepens

theorem refl (x : Outcome α) : Deepens x x := .inr rfl

theorem trans {x y z : Outcome α} (h : Deepens x y) (h' : Deepens y z) : Deepens x z := by
  obtain hout | rfl := h
  · exact .inl hout
  · exact h'

theorem bind {x y : Outcome α} {k l : α → Outcome β} (h : Deepens x y)
    (hk : ∀ a, Deepens (k a) (l a)) : Deepens (x >>= k) (y >>= l) := by
  obtain rfl | rfl := h
  · exact .inl rfl
  · cases y with
    | error f => exact .inr rfl
    | ok a => exact hk a

end Deepens
end Outcome

namespace Play

def Deepens (p q : Play α) : Prop := ∀ s, Outcome.Deepens (p.run s) (q.run s)

namespace Deepens

theorem refl (p : Play α) : Deepens p p := fun _ => .refl _

theorem bind {p q : Play α} {k l : α → Play β} (hp : Deepens p q) (hk : ∀ a, Deepens (k a) (l a)) :
    Deepens (p >>= k) (q >>= l) := by
  intro s
  rw [StateT.run_bind, StateT.run_bind]
  exact (hp s).bind fun x => hk x.1 x.2

/-- The same at first. -/
theorem after (p : Play α) {k l : α → Play β} (hk : ∀ a, Deepens (k a) (l a)) :
    Deepens (p >>= k) (p >>= l) := bind (refl p) hk

/-- What would come after a failure does not matter. -/
theorem fail (f : Fault) {k l : α → Play β} :
    Deepens ((throw f : Play α) >>= k) ((throw f : Play α) >>= l) := fun _ => .inr rfl

theorem forM {as : List α} {k l : α → Play Unit} (hk : ∀ a, Deepens (k a) (l a)) :
    Deepens (as.forM k) (as.forM l) := by
  induction as with
  | nil => exact refl _
  | cons a as ih => exact bind (hk a) fun _ => ih

end Deepens
end Play

namespace Resolving

def Deepens (r t : Resolving α) : Prop := ∀ ctx, Play.Deepens (r.run ctx) (t.run ctx)

namespace Deepens

theorem refl (r : Resolving α) : Deepens r r := fun _ => .refl _

theorem bind {r t : Resolving α} {k l : α → Resolving β} (hr : Deepens r t)
    (hk : ∀ a, Deepens (k a) (l a)) : Deepens (r >>= k) (t >>= l) := fun ctx =>
  (hr ctx).bind fun x => hk x.1 x.2

theorem after (r : Resolving α) {k l : α → Resolving β} (hk : ∀ a, Deepens (k a) (l a)) :
    Deepens (r >>= k) (r >>= l) := bind (refl r) hk

theorem lift {p q : Play α} (h : Play.Deepens p q) :
    Deepens (liftM p : Resolving α) (liftM q) := fun ctx =>
  Play.Deepens.bind (k := fun a => Pure.pure (a, ctx)) (l := fun a => Pure.pure (a, ctx)) h
    fun _ => .refl _

theorem forM {as : List α} {k l : α → Resolving Unit} (hk : ∀ a, Deepens (k a) (l a)) :
    Deepens (as.forM k) (as.forM l) := by
  induction as with
  | nil => exact refl _
  | cons a as ih => exact bind (hk a) fun _ => ih

theorem run' {r t : Resolving α} (h : Deepens r t) (ctx : Context) :
    Play.Deepens (r.run' ctx) (t.run' ctx) := by
  have hrun : ∀ r : Resolving α, (r.run' ctx : Play α) = r.run ctx >>= fun x => pure x.1 :=
    fun _ => rfl
  rw [hrun, hrun]
  exact (h ctx).bind fun _ => .refl _

end Deepens
end Resolving

namespace Attempt

def Deepens (a b : Attempt α) : Prop := Play.Deepens a.run b.run

namespace Deepens

theorem refl (a : Attempt α) : Deepens a a := Play.Deepens.refl _

theorem bind {a b : Attempt α} {k l : α → Attempt β} (ha : Deepens a b)
    (hk : ∀ x, Deepens (k x) (l x)) : Deepens (a >>= k) (b >>= l) := by
  unfold Deepens
  rw [ExceptT.run_bind, ExceptT.run_bind]
  refine Play.Deepens.bind ha fun x => ?_
  cases x with
  | ok x => exact hk x
  | error r => exact .refl _

theorem after (a : Attempt α) {k l : α → Attempt β} (hk : ∀ x, Deepens (k x) (l x)) :
    Deepens (a >>= k) (a >>= l) := bind (refl a) hk

theorem lift {p q : Play α} (h : Play.Deepens p q) :
    Deepens (liftM p : Attempt α) (liftM q) :=
  Play.Deepens.bind (k := fun a => pure (Except.ok a)) (l := fun a => pure (Except.ok a)) h
    fun _ => .refl _

end Deepens
end Attempt

/-! ### Events and turns -/

def Runner.Deepens (run run' : Runner) : Prop :=
  ∀ ctx actions, Play.Deepens (run ctx actions) (run' ctx actions)

section Running

variable {run run' : Runner} (hrun : run.Deepens run')

namespace Play

include hrun

theorem deepens_occur (o : Occurrence) (ctx : Context) {p q : Play Unit} (hp : Deepens p q) :
    Deepens (occur run o ctx p) (occur run' o ctx q) := by
  have hanswers : ∀ answers : List Answer, Deepens
      (answers.forM fun a => run (o.context a.owner a.controller a.trigger ctx.interactive)
        a.trigger.actions)
      (answers.forM fun a => run' (o.context a.owner a.controller a.trigger ctx.interactive)
        a.trigger.actions) := fun _ => .forM fun _ => hrun _ _
  refine .after _ fun m => .after _ fun answers => ?_
  split
  · exact hp.bind fun _ => hanswers answers
  · exact hanswers answers

theorem deepens_announce (o : Occurrence) (ctx : Context) :
    Deepens (occur run o ctx (pure ())) (occur run' o ctx (pure ())) :=
  deepens_occur hrun o ctx (.refl _)

theorem deepens_endTurn : Deepens (endTurn run) (endTurn run') := by
  refine .after _ fun m => .after _ fun _ => .after _ fun _ => .after _ fun _ => ?_
  exact (deepens_announce hrun _ _).bind fun _ => .refl _

theorem deepens_startTurn : Deepens (startTurn run) (startTurn run') := by
  refine .after _ fun m => ?_
  dsimp only
  split
  · refine .after _ fun _ => .after _ fun total => .after _ fun _ => .after _ fun _ => ?_
    refine .after _ fun _ => .after _ fun _ => ?_
    exact (deepens_announce hrun _ _).bind fun _ => .refl _
  · exact .fail _

theorem deepens_passTurn : Deepens (passTurn run) (passTurn run') := by
  refine (deepens_endTurn hrun).bind fun _ => .after _ fun m => ?_
  split
  · exact deepens_startTurn hrun
  · exact .refl _

/-! ### Destruction and placement -/

theorem deepens_destroyIfDoomed (id : PieceId) (cause : Option Cause) (ctx : Context) :
    Deepens (destroyIfDoomed run id cause ctx) (destroyIfDoomed run' id cause ctx) := by
  refine .after _ fun o => ?_
  cases o with
  | none => exact .refl _
  | some p =>
    refine .after _ fun doomed => ?_
    dsimp only
    split
    · refine .after _ fun _ => .after _ fun _ => .after _ fun _ => .after _ fun _ => ?_
      exact (deepens_announce hrun _ ctx).bind fun _ => .refl _
    · exact .refl _

theorem deepens_dealDamage (id : PieceId) (amount : Int) (cause : Option Cause) (ctx : Context) :
    Deepens (dealDamage run id amount cause ctx) (dealDamage run' id amount cause ctx) := by
  refine .after _ fun o => ?_
  cases o with
  | none => exact .refl _
  | some p =>
    dsimp only
    split
    · refine .after _ fun _ => .after _ fun _ => .after _ fun _ => ?_
      exact (deepens_announce hrun _ ctx).bind fun _ => deepens_destroyIfDoomed hrun id cause ctx
    · exact deepens_destroyIfDoomed hrun id cause ctx

theorem deepens_settleAll (ids : List PieceId) :
    Deepens (settleAll run ids) (settleAll run' ids) := by
  induction ids with
  | nil => exact .refl _
  | cons id ids ih =>
    refine .after _ fun o => ?_
    cases o with
    | none => exact ih
    | some p =>
      refine .after _ fun doomed => ?_
      dsimp only
      split
      · exact (deepens_destroyIfDoomed hrun id none .empty).bind fun _ => ih
      · exact ih

theorem deepens_settle : Deepens (settle run) (settle run') :=
  .after _ fun _ => .after _ fun _ => (deepens_settleAll hrun _).bind fun _ => .refl _

theorem deepens_install (id : PieceId) (sentence : Sentence) (source : Option AbilityId)
    (duration : Option Nat) (ctx : Context) :
    Deepens (install run id sentence source duration ctx)
      (install run' id sentence source duration ctx) := by
  refine .after _ fun m => ?_
  dsimp only
  split
  · cases sentence with
    | actions actions => exact hrun _ actions
    | _ => exact .refl _
  · exact .refl _

theorem deepens_installCard (id : PieceId) (ctx : Context) :
    Deepens (installCard run id ctx) (installCard run' id ctx) := by
  refine .after _ fun o => ?_
  cases o with
  | none => exact .refl _
  | some p => exact .forM fun s => deepens_install hrun id s none none ctx

theorem deepens_placeCard (card : Card) (hex : Hex) (owner : Color) (justPlayed : Bool)
    (ctx : Context) : Deepens (placeCard run card hex owner justPlayed ctx)
      (placeCard run' card hex owner justPlayed ctx) := by
  refine .after _ fun m => ?_
  split
  · exact .refl _
  · refine .after _ fun id => .after _ fun m => ?_
    dsimp only
    split
    · exact .refl _
    · refine .after _ fun _ => .after _ fun m => ?_
      refine (deepens_installCard hrun id _).bind fun _ => .after _ fun _ => ?_
      exact (deepens_announce hrun _ ctx).bind fun _ => .refl _

end Play

/-! ### Actions -/

namespace Resolving

omit hrun in
theorem deepens_forEachPiece (ids : List PieceId) {work work' : PieceId → Context → Play Unit}
    (hwork : ∀ id ctx, Play.Deepens (work id ctx) (work' id ctx)) :
    Deepens (forEachPiece ids work) (forEachPiece ids work') := by
  refine .after _ fun outer => .after _ fun _ => ?_
  refine Deepens.bind (.forM fun id => .after _ fun m => ?_) fun _ => .refl _
  split
  · exact .after _ fun _ => .after _ fun ctx => .lift (hwork id ctx)
  · exact .refl _

include hrun

theorem deepens_modifyAttribute (targets : Collection) (scope : Scope) (adjustment : Adjustment) :
    Deepens (modifyAttribute run targets scope adjustment)
      (modifyAttribute run' targets scope adjustment) := by
  cases targets with
  | pieces ids =>
    refine deepens_forEachPiece ids fun id ctx => .after _ fun o => ?_
    have hdestroy := Play.deepens_destroyIfDoomed hrun id none ctx
    cases o with
    | none => exact hdestroy
    | some p => exact .after _ fun _ => .after _ fun _ => hdestroy
  | _ => exact .refl _

/-- Changes objects one by one and destroys what that leaves doomed. -/
theorem deepens_changeEach (ids : List PieceId) (f : Piece → Piece) :
    Deepens
      (forEachPiece ids fun id ctx => do
        Play.change (·.changePiece id f)
        Play.destroyIfDoomed run id none ctx)
      (forEachPiece ids fun id ctx => do
        Play.change (·.changePiece id f)
        Play.destroyIfDoomed run' id none ctx) :=
  deepens_forEachPiece ids fun id ctx =>
    .after _ fun _ => Play.deepens_destroyIfDoomed hrun id none ctx

omit hrun

mutual

theorem deepens_execute (hrun : run.Deepens run') :
    (a : Action) → Deepens (execute run a) (execute run' a)
  | .moveAgain _ | .moveAndAttackAgain _ | .discard _ | .draw .. | .modifyEnergy .. |
    .restoreHealth .. | .takeControl .. | .returnToHand _ | .movePiece .. => .refl _
  | .dealDamage _ _ => .after _ fun _ => .after _ fun _ => .after _ fun _ => .after _ fun ids =>
    deepens_forEachPiece ids fun id ctx => Play.deepens_dealDamage hrun id _ none ctx
  | .destroy _ => .after _ fun ids => deepens_changeEach hrun ids (·.condemn)
  | .endTurn => .lift (Play.deepens_passTurn hrun)
  | .giveAbility _ ability _ => .after _ fun ids => .after _ fun _ =>
    deepens_forEachPiece ids fun id ctx => Play.deepens_install hrun id ability none _ ctx
  | .modifyAttribute .. | .setAttribute .. => .after _ fun targets => .after _ fun _ =>
    deepens_modifyAttribute hrun targets _ _
  | .swapAttributes _ first second => .after _ fun ids =>
    deepens_changeEach hrun ids (·.swap first second)
  | .spawnPiece .. => by
    refine .after _ fun _ => .after _ fun cards => .after _ fun hexes => .after _ fun _ =>
      .after _ fun ctx => .after _ fun _ => ?_
    dsimp only
    split
    · exact Deepens.bind (.lift (Play.deepens_placeCard hrun _ _ _ false ctx)) fun _ => .refl _
    · exact .refl _
  | .ifHolds _ actions => by
    refine .after _ fun holds => ?_
    split
    · exact deepens_executeAll hrun actions
    · exact .refl _

theorem deepens_executeAll (hrun : run.Deepens run') : (actions : List Action) →
    Deepens (executeAll run actions) (executeAll run' actions)
  | [] => .refl _
  | a :: as => .after _ fun _ => (deepens_execute hrun a).bind fun _ => .after _ fun _ =>
    deepens_executeAll hrun as

end

end Resolving

/-! ### Commands -/

namespace Attempt

include hrun

theorem deepens_occur (o : Occurrence) (ctx : Context) {p q : Play Unit} (hp : Play.Deepens p q) :
    Deepens (liftM (Play.occur run o ctx p)) (liftM (Play.occur run' o ctx q)) :=
  .lift (Play.deepens_occur hrun o ctx hp)

theorem deepens_resolveEvent (card : Card) (sentences : List Sentence) :
    Resolving.Deepens (resolveEvent run card sentences) (resolveEvent run' card sentences) := by
  induction sentences with
  | nil => exact .refl _
  | cons s rest ih =>
    cases s with
    | actions actions => exact (Resolving.deepens_executeAll hrun actions).bind fun _ => ih
    | _ => exact .refl _

theorem deepens_playEvent (player : Color) (card : Card) (cost : Int) :
    Deepens (playEvent run player card cost) (playEvent run' player card cost) := by
  refine .after _ fun _ => .after _ fun _ => .after _ fun _ => .after _ fun _ => ?_
  refine Deepens.bind (.lift (deepens_resolveEvent hrun card _ _)) fun x => .after _ fun m => ?_
  have hrest : Deepens
      (do
        change fun m => { m with eventResolving := false }
        Play.occur run ((Occurrence.ofPlayer .afterCardPlay player).withCard card) x.2 (pure ()))
      (do
        change fun m => { m with eventResolving := false }
        Play.occur run' ((Occurrence.ofPlayer .afterCardPlay player).withCard card) x.2
          (pure ())) :=
    .after _ fun _ => deepens_occur hrun _ _ (.refl _)
  dsimp only
  split
  · exact .after _ fun _ => .after _ fun _ => hrest
  · exact hrest

theorem deepens_playPiece (player : Color) (card : Card) (cost : Int) (hex : Hex) :
    Deepens (playPiece run player card cost hex) (playPiece run' player card cost hex) := by
  refine .after _ fun m => ?_
  split
  · exact .refl _
  · refine .after _ fun _ => .after _ fun m => ?_
    split
    · exact .refl _
    · rename_i held _
      refine .after _ fun _ => ?_
      refine Deepens.bind (.lift (Play.deepens_placeCard hrun held hex player true _)) fun o => ?_
      cases o with
      | none => exact .refl _
      | some id =>
        exact .after _ fun _ => (deepens_occur hrun _ _ (.refl _)).bind fun _ => .refl _

theorem deepens_playCard (player : Color) (id : CardId) (hex : Option Hex) :
    Deepens (playCard run player id hex) (playCard run' player id hex) := by
  refine .after _ fun m => ?_
  dsimp only
  split
  · exact .refl _
  · rename_i card _
    refine .after _ fun cost => ?_
    split
    · exact .refl _
    · split
      · exact deepens_playEvent hrun player card cost
      · exact .refl _
      · exact deepens_playPiece hrun player card cost _
      · exact .refl _

theorem deepens_movePiece (player : Color) (start goal : Hex) :
    Deepens (movePiece run player start goal) (movePiece run' player start goal) := by
  refine .after _ fun p => .after _ fun moved => ?_
  split
  · exact .after _ fun _ => .after _ fun _ => deepens_occur hrun _ _ (.refl _)
  · exact .refl _

theorem deepens_combat (attacker defender : PieceId) (ctx : Context) :
    Play.Deepens (combat run attacker defender ctx) (combat run' attacker defender ctx) := by
  have hblows : ∀ attack retaliation : Int, Play.Deepens
      (do
        Play.dealDamage run defender attack (some .combat) ctx
        if 0 < retaliation && (← Play.game).board.contains attacker then
          Play.dealDamage run attacker retaliation (some .combat) ctx)
      (do
        Play.dealDamage run' defender attack (some .combat) ctx
        if 0 < retaliation && (← Play.game).board.contains attacker then
          Play.dealDamage run' attacker retaliation (some .combat) ctx) := by
    intro attack retaliation
    refine (Play.deepens_dealDamage hrun defender attack _ ctx).bind fun _ => .after _ fun m => ?_
    split
    · exact Play.deepens_dealDamage hrun attacker retaliation _ ctx
    · exact .refl _
  refine .after _ fun o => ?_
  cases o with
  | none => exact .refl _
  | some a =>
    refine .after _ fun attack => .after _ fun d => ?_
    cases d with
    | none => exact hblows attack 0
    | some d =>
      dsimp only
      split
      · exact .after _ fun retaliation => .after _ fun _ => hblows attack retaliation
      · exact .after _ fun retaliation => .after _ fun _ => hblows attack retaliation

theorem deepens_strike (player : Color) (attacker defender : PieceId) (stand target : Hex) :
    Deepens (strike run player attacker defender stand target)
      (strike run' player attacker defender stand target) := by
  refine .after _ fun m => ?_
  split
  · exact .refl _
  · refine .after _ fun _ => .after _ fun m => ?_
    split
    · exact .refl _
    · refine .after _ fun _ => .after _ fun _ => .after _ fun _ => ?_
      exact deepens_occur hrun _ _ (deepens_combat hrun attacker defender _)

theorem deepens_attackPiece (player : Color) (start target : Hex) :
    Deepens (attackPiece run player start target) (attackPiece run' player start target) := by
  refine .after _ fun a => .after _ fun m => .after _ fun hexes => ?_
  split
  · exact .refl _
  · split
    · exact .refl _
    · refine .after _ fun step => ?_
      cases step with
      | none => exact deepens_strike hrun player a.id _ start target
      | some step =>
        exact (deepens_movePiece hrun player start step).bind fun _ =>
          deepens_strike hrun player a.id _ step target

theorem deepens_activateAbility (player : Color) (hex : Hex) (index : Nat) :
    Deepens (activateAbility run player hex index) (activateAbility run' player hex index) := by
  refine .after _ fun own => .after _ fun m => ?_
  split
  · exact .refl _
  · split
    · exact .refl _
    · split
      · exact .refl _
      · refine .after _ fun _ => ?_
        exact Deepens.bind (.lift ((Resolving.deepens_executeAll hrun _).run' _)) fun _ => .refl _

theorem deepens_perform (player : Color) (resumption : Resumption) :
    Deepens (perform run player resumption) (perform run' player resumption) := by
  cases resumption with
  | playCard card hex => exact deepens_playCard hrun player card hex
  | movePiece start goal => exact deepens_movePiece hrun player start goal
  | attackPiece start target => exact deepens_attackPiece hrun player start target
  | activateAbility hex index => exact deepens_activateAbility hrun player hex index

end Attempt
end Running

/-! ### Matches -/

theorem Play.deepens_runner_succ (depth : Nat) : (runner depth).Deepens (runner (depth + 1)) := by
  induction depth with
  | zero => exact fun _ _ _ => .inl rfl
  | succ depth ih => exact fun ctx actions => (Resolving.deepens_executeAll ih actions).run' ctx

namespace Match

theorem deepens_attempt (depth : Nat) (m : Match) (player : Color) (resumption : Resumption)
    (chosen : List Choice) : Outcome.Deepens (m.attempt depth player resumption chosen)
      (m.attempt (depth + 1) player resumption chosen) := by
  have hrun := Play.deepens_runner_succ depth
  refine (Attempt.deepens_perform hrun player resumption _).bind fun x => ?_
  dsimp only
  split
  · exact .refl _
  · exact .refl _
  · split
    · exact .refl _
    · exact (Play.deepens_settle hrun _).bind fun _ => .refl _

theorem deepens_endOfTurn (depth : Nat) (m : Match) :
    Outcome.Deepens (m.endOfTurn depth) (m.endOfTurn (depth + 1)) := by
  have hrun := Play.deepens_runner_succ depth
  have hturn : Play.Deepens
      (do
        Play.passTurn (Play.runner depth)
        Play.settle (Play.runner depth))
      (do
        Play.passTurn (Play.runner (depth + 1))
        Play.settle (Play.runner (depth + 1))) :=
    (Play.deepens_passTurn hrun).bind fun _ => Play.deepens_settle hrun
  exact (hturn _).bind fun _ => .refl _

theorem deepens_submitTraced (depth : Nat) (m : Match) (c : Command) :
    Outcome.Deepens (m.submitTraced depth c) (m.submitTraced (depth + 1) c) := by
  unfold submitTraced
  dsimp only
  split
  · exact .refl _
  · split
    · split
      · exact .refl _
      · split
        · exact .refl _
        · split
          · exact .refl _
          · exact deepens_attempt depth _ _ _ _
    · split
      · exact .refl _
      · split
        · exact .refl _
        · split
          · exact deepens_attempt depth _ _ _ _
          · exact deepens_endOfTurn depth _

/-- What a command comes to when its effects are followed to some depth it comes to at every greater
one, unless it gave up for depth. -/
theorem submitTraced_of_le {depth depth' : Nat} (hle : depth ≤ depth') {m : Match} {c : Command}
    (h : m.submitTraced depth c ≠ .error .exhausted) :
    m.submitTraced depth' c = m.submitTraced depth c := by
  have hdeepens : Outcome.Deepens (m.submitTraced depth c) (m.submitTraced depth' c) := by
    induction hle with
    | refl => exact .refl _
    | step _ ih => exact ih.trans (deepens_submitTraced _ m c)
  exact hdeepens.resolve_left h

end Match
end HexDuel
