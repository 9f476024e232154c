import HexDuel.Proofs.BuiltTargets

/-!
Upkeep, events and actions are built, to every depth of effects that cause one another.
-/

set_option autoImplicit false

namespace HexDuel

variable {asks ends : Bool}

namespace Play

theorem built_piece? (id : PieceId) : Built asks ends (piece? id) := .look' fun _ => rfl

theorem built_grant (id : PieceId) (sentence : Sentence) (source : Option AbilityId)
    (duration : Option Nat) : Built asks ends (grant id sentence source duration) := by
  refine (built_piece? id).next fun p => ?_
  split
  · exact .pure _
  · dsimp only
    split
    · exact .pure _
    · exact .edit (.piece id (.setGrants _ false))
    · exact Built.number.next fun _ => .edit (.piece id (.addPassive _))
    · exact Built.number.next fun _ => .edit (.piece id (.addTrigger _))

end Play

namespace Resolving

theorem built_statusKind (phrase : StatusPhrase) : Built asks ends (statusKind phrase) := by
  cases phrase with
  | canOnlyAttack target => exact (built_resolvePieces target).next fun _ => .pure _
  | _ => exact .pure _

theorem built_onEachPiece (targets : Collection) {f : Piece → Piece} (hf : PieceEdit f) :
    Built asks ends (onEachPiece targets f) :=
  .look (fun m => by cases targets <;> rfl) fun _ => (Built.outcome _).next fun ids =>
    .lift (.foldl (fun id => .piece id hf) ids)

theorem built_applyPassive (a : Passive) (targets : Collection) :
    Built asks ends (applyPassive a targets) := by
  unfold applyPassive
  split
  · refine (built_resolveModifier _).next fun adjustment => ?_
    split
    · exact built_onEachPiece _ (.adjust a.id _ adjustment)
    · split
      · exact .lift (.foldl (fun c : Card => .adjustCostOf a.id adjustment c.id) _)
      · exact .pure _
    · exact .fail _
  · exact (built_statusKind _).next fun _ => built_onEachPiece _ (.addStatus _)
  · split
    · exact .pure _
    · exact .look (fun m => by cases targets <;> rfl) fun _ => (Built.outcome _).next fun ids =>
        .forM fun id => .lift (Play.built_grant id _ _ _)
  · exact built_onEachPiece _ (.addActivation _)

end Resolving

namespace Play

theorem built_withdrawAll (as : List Passive) : Built asks ends (change (·.withdrawAll as)) :=
  .foldl (fun a => .withdrawApplied a) as

/-- A computation that depends on its surroundings, and what follows it in the surroundings that it
leaves. -/
theorem Built.within {α β : Type} {r : Resolving α} {k : α × Context → Play β} {ctx : Context}
    (hr : Resolving.Built asks ends r) (hctx : ctx.interactive = true → asks = true)
    (hk : ∀ x : α × Context, (x.2.interactive = true → asks = true) → Built asks ends (k x)) :
    Built asks ends (r.run ctx >>= k) :=
  (hr ctx hctx).1.bind fun x hx => hk x fun h => hctx ((hr ctx hctx).2 x hx ▸ h)

theorem built_reapplyOne (owner : PieceId) (id : AbilityId) :
    Built asks ends (reapplyOne owner id) := by
  refine (built_piece? owner).next fun p => ?_
  split
  · exact .pure _
  · rename_i a _
    have hwrite : ∀ applied, Built asks ends (change (·.changePiece owner
        (·.changePassive id (·.setApplied applied)))) := fun applied =>
      .edit (.piece owner (.setApplied id applied))
    refine (Built.edit (.withdrawApplied a)).next fun _ => ?_
    dsimp only
    split
    · exact hwrite none
    · refine .look (fun _ => rfl) fun m => ?_
      refine .within (Resolving.built_resolve a.targets) (fun h => nomatch h) fun x hx => ?_
      exact ((Resolving.built_applyPassive a x.1).run' hx).next fun _ => hwrite (some x.1)

theorem built_reapplyOf (owner : PieceId) : Built asks ends (reapplyOf owner) := by
  refine (built_piece? owner).next fun p => ?_
  split
  · exact .pure _
  · exact .forM fun a => built_reapplyOne owner a.id

theorem built_reapply : Built asks ends reapply :=
  .look (fun _ => rfl) fun _ => (Built.forM built_reapplyOf).next fun _ => .edit .dropDisabled

theorem built_removePiece (id : PieceId) : Built asks ends (removePiece id) := by
  refine (built_piece? id).next fun p => ?_
  split
  · exact .pure _
  · refine (Built.edit (.erase id)).next fun _ => ?_
    refine (built_withdrawAll _).next fun _ => ?_
    exact built_reapply.next fun _ => (Built.edit .checkVictory).next fun _ => .pure _

theorem built_returnToHand (id : PieceId) : Built asks ends (returnToHand id) := by
  refine (built_removePiece id).next fun p => ?_
  split
  · exact .pure _
  · exact .edit (.giveBack _ _)

theorem built_drawCards (player : Color) (count : Nat) :
    Built asks ends (drawCards player count) :=
  (Built.edit (.deal player count)).next fun _ => built_reapply

end Play

/-! Without surroundings, and on behalf of an object alone, nobody can be asked. -/

theorem Context.empty_asks (h : empty.interactive = true) : asks = true := nomatch h

theorem Context.forPiece_asks {m : Match} {id : PieceId}
    (h : (forPiece m id).interactive = true) : asks = true := nomatch h

/-- Whatever turns it runs in, what a runner carries out is built. -/
def Runner.Built (asks : Bool) (run : Runner) : Prop :=
  ∀ (ends : Bool) (ctx : Context) (actions : List Action),
    (ctx.interactive = true → asks = true) → Play.Built asks ends (run ctx actions)

section Running

variable {run : Runner} (hrun : run.Built asks)

namespace Play

theorem built_hears (o : Occurrence) (owner : PieceId) (t : Trigger) :
    Built asks ends (hears o owner t) := by
  unfold hears
  split
  · exact .look (fun _ => rfl) fun _ =>
      ((Resolving.built_resolve _).run' Context.forPiece_asks).next fun _ => .pure _
  · exact .pure _

theorem built_answersAmong (o : Occurrence) (owner : PieceId) (controller : Color)
    (ts : List Trigger) : Built asks ends (answersAmong o owner controller ts) := by
  induction ts with
  | nil => exact .pure _
  | cons t ts ih => exact (built_hears o owner t).next fun _ => ih.next fun _ => .pure _

theorem built_answersOf (o : Occurrence) (ids : List PieceId) :
    Built asks ends (answersOf o ids) := by
  induction ids with
  | nil => exact .pure _
  | cons id ids ih =>
    have hrest : ∀ found, Built asks ends (do return found ++ (← answersOf o ids)) :=
      fun found => ih.next fun _ => .pure _
    refine (built_piece? id).next fun p => ?_
    split
    · exact hrest []
    · exact (built_answersAmong o id _ _).next hrest

include hrun

theorem built_occur (o : Occurrence) {parent : Context} {byDefault : Play Unit}
    (hparent : parent.interactive = true → asks = true) (hdefault : Built asks ends byDefault) :
    Built asks ends (occur run o parent byDefault) := by
  have hanswers : ∀ answers : List Answer, Built asks ends (answers.forM fun a =>
      run (o.context a.owner a.controller a.trigger parent.interactive) a.trigger.actions) :=
    fun answers => .forM fun a => hrun ends _ _ hparent
  refine .look (fun _ => rfl) fun m => ?_
  refine (built_answersOf o _).next fun answers => ?_
  split
  · exact hdefault.next fun _ => hanswers answers
  · exact hanswers answers

/-- Nobody is asked about an event without surroundings. -/
theorem built_announce (o : Occurrence) : Built asks ends (occur run o .empty (pure ())) :=
  built_occur hrun o Context.empty_asks (.pure ())

theorem built_endTurn : Built asks true (endTurn run) := by
  refine .look (fun _ => rfl) fun m => ?_
  refine (Built.leave m.turn).next fun _ => ?_
  refine (Built.edit (.endTurnOf m.turn)).next fun _ => ?_
  refine (Built.edit .tickDurations).next fun _ => ?_
  refine (built_announce hrun _).next fun _ => ?_
  exact (Built.edit .checkVictory).next fun _ => .handOver _

theorem built_startTurn : Built asks true (startTurn run) := by
  refine .look (fun m => by simp only [Match.seat_bare]; rfl) fun m => ?_
  dsimp only
  split
  · refine (Built.edit .nextTurn).next fun _ => ?_
    refine (Built.lift _).next fun _ => ?_
    refine (Built.edit (.setEnergy m.turn _)).next fun _ => ?_
    refine (Built.edit (.beginTurnOf m.turn)).next fun _ => ?_
    refine (Built.note (.turnBegan m.turn) rfl).next fun _ => ?_
    refine (built_drawCards m.turn 1).next fun _ => ?_
    refine (built_announce hrun _).next fun _ => ?_
    exact .edit (.chime m.turn)
  · exact .fail .overflow

theorem built_passTurn : Built asks true (passTurn run) := by
  refine (built_endTurn hrun).next fun _ => .look (fun _ => rfl) fun m => ?_
  split
  · exact built_startTurn hrun
  · exact .pure ()

end Play
end Running

section Running

variable {run : Runner} (hrun : run.Built asks) {ctx : Context}
  (hctx : ctx.interactive = true → asks = true)

include hrun

namespace Play

include hctx in
theorem built_destroyIfDoomed (id : PieceId) (cause : Option Cause) :
    Built asks ends (destroyIfDoomed run id cause ctx) := by
  refine (built_piece? id).next fun p => ?_
  split
  · exact .pure _
  · refine (Built.lift _).next fun doomed => ?_
    split
    · refine (Built.edit (.piece id .fall)).next fun _ => ?_
      refine (Built.note (.toppled id) rfl).next fun _ => ?_
      refine (Built.edit (.playSound _)).next fun _ => ?_
      refine (Built.edit (.addLog _ _ _)).next fun _ => ?_
      refine (built_occur hrun _ hctx (.pure ())).next fun _ => ?_
      refine (built_removePiece id).next fun removed => ?_
      cases removed with
      | some p => exact (Built.edit (.discard p.owner p.card.reset)).next fun _ => built_reapply
      | none => exact built_reapply
    · exact built_reapply

include hctx in
theorem built_dealDamage (id : PieceId) (amount : Int) (cause : Option Cause) :
    Built asks ends (dealDamage run id amount cause ctx) := by
  have hdestroy : Built asks ends (destroyIfDoomed run id cause ctx) :=
    built_destroyIfDoomed hrun hctx id cause
  refine (built_piece? id).next fun p => ?_
  split
  · exact .pure _
  · dsimp only
    split
    · refine (Built.lift _).next fun health => ?_
      refine (Built.edit (.piece id (.setHealth health))).next fun _ => ?_
      refine (Built.edit (.addLog _ _ _)).next fun _ => ?_
      exact (built_occur hrun _ hctx (.pure ())).next fun _ => hdestroy
    · exact hdestroy

theorem built_settleAll (ids : List PieceId) : Built asks ends (settleAll run ids) := by
  induction ids with
  | nil => exact .pure _
  | cons id ids ih =>
    refine (built_piece? id).next fun p => ?_
    split
    · exact ih
    · refine (Built.lift _).next fun doomed => ?_
      split
      · exact (built_destroyIfDoomed hrun Context.empty_asks id none).next fun _ => ih
      · exact ih

theorem built_settle : Built asks ends (settle run) :=
  built_reapply.next fun _ => .look (fun _ => rfl) fun _ =>
    (built_settleAll hrun _).next fun _ => .edit .checkVictory

include hctx in
theorem built_install (id : PieceId) (sentence : Sentence) (source : Option AbilityId)
    (duration : Option Nat) : Built asks ends (install run id sentence source duration ctx) := by
  refine .look (fun _ => rfl) fun m => ?_
  dsimp only
  split
  · split
    · exact hrun ends _ _ hctx
    · exact built_grant id _ source duration
  · exact .pure _

include hctx in
theorem built_installCard (id : PieceId) : Built asks ends (installCard run id ctx) := by
  refine (built_piece? id).next fun p => ?_
  split
  · exact .pure _
  · exact .forM fun s => built_install hrun hctx id s none none

include hctx in
theorem built_placeCard (card : Card) (hex : Hex) (owner : Color) (justPlayed : Bool) :
    Built asks ends (placeCard run card hex owner justPlayed ctx) := by
  refine .look (fun _ => rfl) fun m => ?_
  split
  · exact .pure _
  · rename_i hfits
    have honBoard : hex.onBoard = true := by
      simp only [Bool.or_eq_true, not_or] at hfits
      simpa using hfits.1.2
    refine Built.number.next fun id => .look (fun _ => rfl) fun m => ?_
    dsimp only
    split
    · exact .fail _
    · refine (Built.edit (.enter _ honBoard)).next fun _ => .look (fun _ => rfl) fun m => ?_
      have hspeaks : (ctx.onBehalfOf m id).interactive = true → asks = true := hctx
      refine (built_installCard hrun hspeaks id).next fun _ => ?_
      refine (Built.edit (.playSound _)).next fun _ => ?_
      refine (built_occur hrun _ hctx (.pure ())).next fun _ => ?_
      exact built_reapply.next fun _ => .pure _

end Play
end Running

namespace Resolving

theorem built_adjustHandCard (scope : Scope) (adjustment : Adjustment) (id : CardId) :
    Built asks ends (adjustHandCard scope adjustment id) := by
  refine .look ?_ fun m => ?_
  · intro m
    simp only [Match.holderOf?_bare, Seat.cardInHand?, Match.hand_bare]
  split
  · exact .pure _
  · split
    · exact .pure _
    · exact (Built.outcome _).next fun _ => .edit (.reprint _ id _ _)

theorem built_restorePiece (amount : Option Int) (id : PieceId) :
    Built asks ends (restorePiece amount id) := by
  refine .look (fun _ => rfl) fun m => ?_
  split
  · exact .pure _
  · exact (Built.outcome _).next fun health => .edit (.piece id (.setHealth health))

theorem built_changePieces (ids : List PieceId) {f : Piece → Piece} (hf : PieceEdit f) :
    Built asks ends (changePieces ids f) :=
  .lift (.foldl (fun id => .piece id hf) ids)

theorem built_resolveCells (target : Target) : Built asks ends (resolveCells target) :=
  (built_resolve target).next fun _ => .outcome _

theorem built_resolvePlayers (target : Target) : Built asks ends (resolvePlayers target) :=
  (built_resolve target).next fun _ => .outcome _

theorem built_iterate (s : Option Salient) :
    Built asks ends (modify fun ctx => { ctx with iteratee := s }) := .salience fun _ => rfl

theorem built_forEachPiece (ids : List PieceId) {work : PieceId → Context → Play Unit}
    (hwork : ∀ id (ctx : Context), (ctx.interactive = true → asks = true) →
      Play.Built asks ends (work id ctx)) : Built asks ends (forEachPiece ids work) := by
  refine .context fun outer _ => (built_iterate none).next fun _ => ?_
  refine (Built.forM fun id => ?_).next fun _ => built_iterate outer.iteratee
  refine .look (fun _ => rfl) fun m => ?_
  split
  · exact (built_iterate (some (.piece id))).next fun _ => .context fun ctx hctx =>
      .lift (hwork id ctx hctx)
  · exact .pure _

theorem note_bind_lift (h : Happening) (p : Play Unit) (k : Resolving Unit) :
    (do note h; (p : Play Unit); k : Resolving Unit) =
      (liftM (do Play.note h; p) : Resolving Unit) >>= fun _ => k := rfl

section Running

variable {run : Runner} (hrun : run.Built asks)
include hrun

theorem built_modifyAttribute (targets : Collection) (scope : Scope) (adjustment : Adjustment) :
    Built asks ends (modifyAttribute run targets scope adjustment) := by
  unfold modifyAttribute
  split
  · refine built_forEachPiece _ fun id ctx hctx => ?_
    have hdestroy : Play.Built asks ends (Play.destroyIfDoomed run id none ctx) :=
      Play.built_destroyIfDoomed hrun hctx id none
    refine (Play.built_piece? id).next fun p => ?_
    split
    · exact hdestroy
    · exact (Play.Built.lift _).next fun stats =>
        (Play.Built.edit (.piece id (.setStats stats))).next fun _ => hdestroy
  · exact .forM fun c => built_adjustHandCard scope adjustment c.id
  · exact .fail _

/-- Changes objects one by one and destroys what that leaves doomed. -/
theorem built_changeEach (ids : List PieceId) {f : Piece → Piece} (hf : PieceEdit f) :
    Built asks ends (forEachPiece ids fun id ctx => do
      Play.change (·.changePiece id f)
      Play.destroyIfDoomed run id none ctx) :=
  built_forEachPiece ids fun id _ hctx =>
    (Play.Built.edit (.piece id hf)).next fun _ => Play.built_destroyIfDoomed hrun hctx id none

/-- The action that ends the turn, with its note. -/
theorem built_ending {k : Resolving Unit} (hk : Built asks ends k) :
    Built asks ends (do note (.executed .endTurn); (Play.passTurn run : Play Unit); k) := by
  rw [note_bind_lift]
  exact (Built.lift (.ending (Play.built_passTurn hrun))).next fun _ => hk

mutual

theorem built_execute : (a : Action) → a ≠ .endTurn → Built asks ends (execute run a)
  | .moveAgain target, _ =>
    (built_resolvePieces target).next fun ids => built_changePieces ids .mayMoveAgain
  | .moveAndAttackAgain target, _ =>
    (built_resolvePieces target).next fun ids => built_changePieces ids .mayMoveAndAttackAgain
  | .dealDamage target amount, _ =>
    (built_resolve target).next fun c => (built_evaluate amount).next fun amount =>
      .look (fun m => by cases c <;> rfl) fun _ => (Built.outcome _).next fun ids =>
        built_forEachPiece ids fun id _ hctx => Play.built_dealDamage hrun hctx id amount none
  | .destroy target, _ =>
    (built_resolvePieces target).next fun ids => built_changeEach hrun ids .condemn
  | .discard target, _ =>
    (built_resolve target).next fun _ => (Built.outcome _).next fun cards =>
      .lift (.foldl (fun c : Card => .discardFromHand c.id) cards)
  | .draw player count, _ =>
    (built_resolvePlayers player).next fun players => (built_evaluate count).next fun count =>
      .forM fun c => .lift (Play.built_drawCards c count.toNat)
  | .endTurn, h => (h rfl).elim
  | .giveAbility target ability duration, _ =>
    (built_resolvePieces target).next fun ids => .context fun _ _ =>
      built_forEachPiece ids fun id _ hctx => Play.built_install hrun hctx id ability none _
  | .modifyAttribute target scope modifier, _ =>
    (built_resolve target).next fun targets => (built_resolveModifier modifier).next fun _ =>
      built_modifyAttribute hrun targets scope _
  | .modifyEnergy player modifier, _ =>
    (built_resolvePlayers player).next fun players =>
      (built_resolveModifier modifier).next fun _ => .forM fun c =>
        .look (fun m => by simp only [Match.seat_bare]; rfl) fun _ =>
          (Built.outcome _).next fun available => .edit (.setAvailable c available)
  | .restoreHealth target none, _ =>
    (built_resolvePieces target).next fun _ => .forM fun id => built_restorePiece none id
  | .restoreHealth target (some n), _ =>
    (built_resolvePieces target).next fun _ => (built_evaluate n).next fun amount =>
      .forM fun id => built_restorePiece (some amount) id
  | .setAttribute target scope value, _ =>
    (built_resolve target).next fun targets => (built_evaluate value).next fun _ =>
      built_modifyAttribute hrun targets scope _
  | .swapAttributes target first second, _ =>
    (built_resolvePieces target).next fun ids => built_changeEach hrun ids (.swap first second)
  | .takeControl player target, _ => by
    refine (built_resolvePlayers player).next fun players => ?_
    split
    · exact .pure _
    · rename_i owner _
      exact (built_resolvePieces target).next fun ids =>
        (Built.lift (.foldl (fun id => .takeControl owner id) ids)).next fun _ =>
          .edit .checkVictory
  | .returnToHand target, _ =>
    (built_resolvePieces target).next fun _ => .forM fun id => .lift (Play.built_returnToHand id)
  | .movePiece target destination, _ => by
    refine (built_resolvePieces target).next fun ids => ?_
    refine (built_resolveCells destination).next fun hexes => ?_
    split
    · exact .edit (.moveTo _ _)
    · exact .pure _
  | .spawnPiece card hex owner, _ => by
    refine (built_resolve card).next fun _ => (Built.outcome _).next fun cards => ?_
    refine (built_resolveCells hex).next fun hexes => ?_
    refine (built_resolvePlayers owner).next fun players => ?_
    refine .context fun ctx hctx => .look (fun _ => rfl) fun m => ?_
    dsimp only
    split
    · exact (Built.lift (Play.built_placeCard hrun hctx _ _ _ false)).next fun _ => .pure _
    · exact .pure _
  | .ifHolds condition actions, _ => by
    refine (built_evaluateState condition).next fun holds => ?_
    split
    · exact built_executeAll actions
    · exact .pure _

theorem built_executeAll : (actions : List Action) → Built asks ends (executeAll run actions)
  | [] => .pure _
  | a :: as => by
    have hrest : Built asks ends (do (Play.reapply : Play Unit); executeAll run as) :=
      (Built.lift Play.built_reapply).next fun _ => built_executeAll as
    -- Only the action that ends the turn needs its note for what it does.
    by_cases ha : a = .endTurn
    · subst ha
      exact built_ending hrun hrest
    · have hplain : (Happening.executed a).isPlain = true := by
        cases a <;> first | rfl | exact absurd rfl ha
      exact (Built.note _ hplain).next fun _ => (built_execute a ha).next fun _ => hrest

end

end Running
end Resolving

namespace Play

/-- However deep effects may cause one another, all that is carried out is built. -/
theorem built_runner (asks : Bool) (depth : Nat) : (runner depth).Built asks := by
  induction depth with
  | zero => exact fun _ _ _ _ => .fail _
  | succ depth ih =>
    intro ends ctx actions hctx
    exact (Resolving.built_executeAll ih actions).run' hctx

end Play

end HexDuel
