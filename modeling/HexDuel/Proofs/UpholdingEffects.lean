import HexDuel.Proofs.UpholdingEvents

/-!
Actions uphold a creed where the runner copes with what they call forth. Of each action is said which
events it raises and whether it has cards enter, so that a runner that follows it to a greater depth
copes with it.
-/

set_option autoImplicit false

namespace HexDuel

open Outcome (Meets)

variable {K : Creed} {strict : Bool}

/-- What a card does when it enters the board is coped with. -/
def Creed.Places (K : Creed) (copes : List Action → Prop) : Prop :=
  ∀ type actions, type.isPiece = true → K.enters type actions → copes actions

/-- What an action calls forth: an event is raised, a card enters the board, or an object is made to
act. -/
inductive Consequence where
  | event (type : EventType)
  | entry
  | acts (actions : List Action)

mutual

def Action.consequences : Action → List Consequence
  | .dealDamage .. => [.event .afterDamageReceived, .event .afterDestroyed]
  | .destroy _ | .modifyAttribute .. | .setAttribute .. | .swapAttributes .. =>
    [.event .afterDestroyed]
  | .endTurn => [.event .endOfTurn, .event .beginningOfTurn]
  | .giveAbility _ (.actions actions) _ => [.acts actions]
  | .spawnPiece .. => [.entry, .event .afterPlayed]
  | .ifHolds _ actions => consequencesOf actions
  | _ => []

def consequencesOf : List Action → List Consequence
  | [] => []
  | a :: as => a.consequences ++ consequencesOf as

end

/-- What such a consequence leads to is coped with. -/
def Creed.Bears (K : Creed) (copes : List Action → Prop) : Consequence → Prop
  | .event type => K.Hears copes type
  | .entry => K.Places copes
  | .acts actions => copes actions

namespace Play

section Running

variable {run : Runner} {copes : List Action → Prop} (hK : K.Coherent)
  (hrun : run.Upholds K strict copes) {ctx : Context} (hctx : ctx.Abides K)

include hK hrun

/-! ### Destruction -/

section Destruction

variable (hdestroyed : K.Hears copes .afterDestroyed)
include hdestroyed

theorem upholds_destroyIfDoomed (id : PieceId) (cause : Option Cause) (ctx : Context) :
    Upholds K strict (fun _ => True) (destroyIfDoomed run id cause ctx) := by
  refine (Upholds.piece? id).next fun o ho => ?_
  split
  · exact .pure trivial
  · rename_i p
    have hp : p.Abides K := ho p rfl
    have hfallen : ((Occurrence.ofPiece .afterDestroyed id).withCause cause).Abides K :=
      ⟨fun _ h => nomatch h⟩
    refine (Upholds.lift hp.meets_isDoomed).next fun doomed _ => ?_
    split
    · refine (Upholds.change fun _ hm => hm.changePiece id fun _ hq => hq.fall).next fun _ _ => ?_
      refine (Upholds.note _).next fun _ _ => ?_
      refine (Upholds.change fun _ hm => hm.playSound _).next fun _ _ => ?_
      refine (Upholds.change fun _ hm => hm.addLog _ _
        (List.forall_mem_singleton.2 hp.card)).next fun _ _ => ?_
      refine (upholds_announce hK hrun hfallen hdestroyed ctx).next fun _ _ => ?_
      refine (upholds_removePiece hK id).next fun removed hremoved => ?_
      cases removed with
      | none => exact upholds_reapply hK
      | some q =>
        have hcard := (hremoved q rfl).card.reset
        exact (Upholds.change fun _ hm => hm.discard q.owner hcard).next fun _ _ =>
          upholds_reapply hK
    · exact upholds_reapply hK

theorem upholds_dealDamage (hdamaged : K.Hears copes .afterDamageReceived) (id : PieceId)
    (amount : Int) (cause : Option Cause) (ctx : Context) :
    Upholds K strict (fun _ => True) (dealDamage run id amount cause ctx) := by
  have hdestroy := upholds_destroyIfDoomed hK hrun hdestroyed id cause ctx
  refine (Upholds.piece? id).next fun o ho => ?_
  split
  · exact .pure trivial
  · rename_i p
    have hp : p.Abides K := ho p rfl
    dsimp only
    split
    · refine (Upholds.lift (Outcome.meets_int32 _)).next fun health hhealth => ?_
      refine (Upholds.change fun _ hm => hm.changePiece id fun _ hq =>
        hq.setHealth hhealth).next fun _ _ => ?_
      refine (Upholds.change fun _ hm => hm.addLog _ _
        (List.forall_mem_singleton.2 hp.card)).next fun _ _ => ?_
      exact (upholds_announce hK hrun (.ofPiece _ _) hdamaged ctx).next fun _ _ => hdestroy
    · exact hdestroy

theorem upholds_settleAll (ids : List PieceId) :
    Upholds K strict (fun _ => True) (settleAll run ids) := by
  induction ids with
  | nil => exact .pure trivial
  | cons id ids ih =>
    refine (Upholds.piece? id).next fun o ho => ?_
    split
    · exact ih
    · rename_i p
      refine (Upholds.lift (ho p rfl).meets_isDoomed).next fun doomed _ => ?_
      split
      · exact (upholds_destroyIfDoomed hK hrun hdestroyed id none .empty).next fun _ _ => ih
      · exact ih

theorem upholds_settle : Upholds K strict (fun _ => True) (settle run) :=
  (upholds_reapply hK).next fun _ _ => .look fun _ _ =>
    (upholds_settleAll hK hrun hdestroyed _).next fun _ _ => .change fun _ hm => hm.checkVictory

end Destruction

/-! ### Placement -/

include hctx in
theorem upholds_install (id : PieceId) {sentence : Sentence} (h : K.admits sentence)
    (hcopes : ∀ actions, sentence = .actions actions → copes actions) {duration : Option Nat}
    (hduration : ∀ n ∈ duration, FitsCount n) :
    Upholds K strict (fun _ => True) (install run id sentence none duration ctx) := by
  refine .look fun m hm => ?_
  dsimp only
  split
  · split
    · rename_i actions
      have hspeaks : { ctx.onBehalfOf m id with source := none }.Abides K :=
        { hctx.onBehalfOf m id with }
      exact hrun _ _ hspeaks h (hcopes actions rfl)
    · have hsource : ∀ n ∈ (none : Option AbilityId), FitsId n := fun _ hn => nomatch hn
      exact upholds_grant hK id h hsource hduration
  · exact .pure trivial

include hctx in
theorem upholds_installCard (hplaces : K.Places copes) (id : PieceId) :
    Upholds K strict (fun _ => True) (installCard run id ctx) := by
  refine (Upholds.piece? id).next fun o ho => ?_
  split
  · exact .pure trivial
  · rename_i p
    have hp : p.Abides K := ho p rfl
    have hlasting : ∀ n ∈ (none : Option Nat), FitsCount n := fun _ hn => nomatch hn
    refine .forM fun s hs =>
      upholds_install hK hrun hctx id (hp.card.sentences s hs) ?_ hlasting
    rintro actions rfl
    exact hplaces _ _ hp.stands (hp.card.enters actions hs)

include hctx in
theorem upholds_placeCard (hplaces : K.Places copes) (hplayed : K.Hears copes .afterPlayed)
    {card : Card} (hcard : card.Abides K) {hex : Hex} (hhex : hex.Fits) (owner : Color)
    (justPlayed : Bool) :
    Upholds K strict (fun _ => True) (placeCard run card hex owner justPlayed ctx) := by
  refine .look fun m _ => ?_
  split
  · exact .pure trivial
  · rename_i hfits
    have hstands : card.type.isPiece = true := by
      simp only [Bool.or_eq_true, not_or] at hfits
      simpa using hfits.1.1
    refine Upholds.freshId.next fun id hid => .look fun m _ => ?_
    have hpiece : { Piece.new id card.reset owner hex with justPlayed := justPlayed }.Abides K :=
      { Piece.Abides.new hid hcard.reset hstands hhex owner with }
    dsimp only
    split
    · exact .fail fun heq => nomatch heq
    · refine (Upholds.change fun _ hm => hm.changeBoard (hm.board.enter hpiece)).next fun _ _ => ?_
      refine .look fun m _ => ?_
      refine (upholds_installCard hK hrun (hctx.onBehalfOf m id) hplaces id).next fun _ _ => ?_
      refine (Upholds.change fun _ hm => hm.playSound _).next fun _ _ => ?_
      refine (upholds_announce hK hrun (.ofPiece _ _) hplayed ctx).next fun _ _ => ?_
      exact (upholds_reapply hK).next fun _ _ => .pure trivial

end Running
end Play

namespace Resolving

/-! ### Numbers and cards -/

theorem meets_adjustStats {a : Adjustment} (ha : a.Fits) (stats : List Attribute) {s : Stats}
    (hs : s.Fits) : Meets (·.Fits) (adjustStats a stats s) := by
  induction stats generalizing s with
  | nil => exact hs
  | cons stat stats ih =>
    unfold adjustStats
    split
    · exact ih hs
    · rename_i value hvalue
      exact (Adjustment.meets_apply ha (hs.get hvalue)).bind fun i hi => ih (hs.set stat hi)

theorem meets_adjustCard {a : Adjustment} (ha : a.Fits) (scope : Scope) {c : Card}
    (hc : c.Abides K) :
    Meets (fun c' => Fits32 c'.cost ∧ ∀ s ∈ c'.stats, s.Fits) (adjustCard scope a c) := by
  unfold adjustCard
  split
  · exact (Adjustment.meets_apply ha hc.cost).bind fun cost hcost => ⟨hcost, hc.stats⟩
  · split
    · exact ⟨hc.cost, hc.stats⟩
    · rename_i s hs
      exact (meets_adjustStats ha _ (hc.stats s hs)).bind fun s' hs' =>
        ⟨hc.cost, fun _ heq => Option.some.inj heq ▸ hs'⟩

theorem upholds_adjustHandCard {a : Adjustment} (ha : a.Fits) (scope : Scope) (id : CardId) :
    Upholds K strict (fun _ => True) (adjustHandCard scope a id) := by
  refine .look fun m hm => ?_
  split
  · exact .pure trivial
  · rename_i holder _
    split
    · exact .pure trivial
    · rename_i c hc
      have hheld : c.Abides K := (hm.seats holder).cardInHand? hc
      exact (Upholds.outcome (meets_adjustCard ha scope hheld)).next fun _ hadjusted =>
        .change fun _ hm' => hm'.changeCard holder id fun _ hc' =>
          hc'.reprint hadjusted.1 hadjusted.2

theorem meets_restored {p : Piece} (hp : p.Abides K) (amount : Option Int) :
    Meets Fits32 (restored amount p) := by
  have hbase := hp.card.baseHealth
  unfold restored
  dsimp only
  split
  · split
    · exact hbase
    · refine (Outcome.meets_int32 _).bind fun health hhealth => ?_
      show Fits32 (min health p.card.baseHealth)
      rw [fits32_iff] at *
      omega
  · exact hp.stats.health

theorem upholds_restorePiece (amount : Option Int) (id : PieceId) :
    Upholds K strict (fun _ => True) (restorePiece amount id) := by
  refine .look fun m hm => ?_
  split
  · exact .pure trivial
  · rename_i p hget
    exact (Upholds.outcome (meets_restored (hm.board.get? hget).2 amount)).next fun _ hhealth =>
      .change fun _ hm' => hm'.changePiece id fun _ hp => hp.setHealth hhealth

theorem upholds_changePieces (ids : List PieceId) {f : Piece → Piece}
    (hf : ∀ p : Piece, p.Abides K → (f p).Abides K) :
    Upholds K strict (fun _ => True) (changePieces ids f) :=
  .change fun _ hm => hm.changePieces ids hf

theorem meets_victims {c : Collection} (hc : c.Abides K) {m : Match} (hm : m.Abides K) :
    Meets (fun _ => True) (victims m c) := by
  cases c with
  | players => trivial
  | _ => exact (hc.meets_piecesIn hm).mono fun _ _ => trivial

theorem upholds_iterate {iteratee : Option Salient} (h : ∀ x ∈ iteratee, x.Abides K) :
    Upholds K strict (fun _ => True) (modify fun ctx => { ctx with iteratee := iteratee }) :=
  .salience fun _ hctx => hctx.iterating h

theorem upholds_forEachPiece (ids : List PieceId) {work : PieceId → Context → Play Unit}
    (hwork : ∀ id (ctx : Context), ctx.Abides K →
      Play.Upholds K strict (fun _ => True) (work id ctx)) :
    Upholds K strict (fun _ => True) (forEachPiece ids work) := by
  have hnone : ∀ x ∈ (none : Option Salient), x.Abides K := fun _ hx => nomatch hx
  refine .context fun outer houter => (upholds_iterate hnone).next fun _ _ => ?_
  refine (Upholds.forM fun id _ => ?_).next fun _ _ => upholds_iterate houter.iteratee
  refine .look fun m _ => ?_
  split
  · exact (upholds_iterate fun _ hx => Option.some.inj hx ▸ trivial).next fun _ _ =>
      .context fun ctx hctx => .lift (hwork id ctx hctx)
  · exact .pure trivial

/-! ### Actions -/

section Running

variable {run : Runner} {copes : List Action → Prop} (hK : K.Coherent)
  (hrun : run.Upholds K strict copes)

include hK hrun

theorem upholds_modifyAttribute (hdestroyed : K.Hears copes .afterDestroyed) (targets : Collection)
    (scope : Scope) {a : Adjustment} (ha : a.Fits) :
    Upholds K strict (fun _ => True) (modifyAttribute run targets scope a) := by
  unfold modifyAttribute
  split
  · refine upholds_forEachPiece _ fun id ctx _ => ?_
    have hdestroy := Play.upholds_destroyIfDoomed hK hrun hdestroyed id none ctx
    refine (Play.Upholds.piece? id).next fun o ho => ?_
    split
    · exact hdestroy
    · rename_i p
      refine (Play.Upholds.lift (meets_adjustStats ha _ (ho p rfl).stats)).next fun s hs => ?_
      exact (Play.Upholds.change fun _ hm => hm.changePiece id fun _ hp =>
        hp.setStats hs).next fun _ _ => hdestroy
  · exact .forM fun c _ => upholds_adjustHandCard ha scope c.id
  · exact .fail fun heq => nomatch heq

/-- Changes objects one by one and destroys what that leaves doomed. -/
theorem upholds_changeEach (hdestroyed : K.Hears copes .afterDestroyed) (ids : List PieceId)
    {f : Piece → Piece} (hf : ∀ p : Piece, p.Abides K → (f p).Abides K) :
    Upholds K strict (fun _ => True) (forEachPiece ids fun id ctx => do
      Play.change (·.changePiece id f)
      Play.destroyIfDoomed run id none ctx) :=
  upholds_forEachPiece ids fun id ctx _ =>
    (Play.Upholds.change fun _ hm => hm.changePiece id hf).next fun _ _ =>
      Play.upholds_destroyIfDoomed hK hrun hdestroyed id none ctx

end Running

variable {run : Runner} {copes : List Action → Prop}

mutual

theorem upholds_execute (hK : K.Coherent) (hrun : run.Upholds K strict copes) :
    (a : Action) → K.admits (.actions [a]) → (∀ x ∈ a.consequences, K.Bears copes x) →
    Upholds K strict (fun _ => True) (execute run a)
  | .moveAgain target, h, _ =>
    (upholds_resolvePieces (hK.fits _ h).1).next fun ids _ =>
      upholds_changePieces ids fun _ hp => hp.mayMoveAgain
  | .moveAndAttackAgain target, h, _ =>
    (upholds_resolvePieces (hK.fits _ h).1).next fun ids _ =>
      upholds_changePieces ids fun _ hp => hp.mayMoveAndAttackAgain
  | .dealDamage target amount, h, hbears => by
    have hdamaged := hbears _ List.mem_cons_self
    have hdestroyed := hbears _ (List.mem_cons_of_mem _ List.mem_cons_self)
    exact (upholds_resolve target (hK.fits _ h).1.1).next fun _ hc =>
      (upholds_evaluate amount (hK.fits _ h).1.2).next fun _ _ => .look fun _ hm =>
        (Upholds.outcome (meets_victims hc hm)).next fun ids _ =>
          upholds_forEachPiece ids fun id ctx _ =>
            Play.upholds_dealDamage hK hrun hdestroyed hdamaged id _ none ctx
  | .destroy target, h, hbears =>
    (upholds_resolvePieces (hK.fits _ h).1).next fun ids _ =>
      upholds_changeEach hK hrun (hbears _ List.mem_cons_self) ids fun _ hp => hp.condemn
  | .discard target, h, _ =>
    (upholds_resolve target (hK.fits _ h).1).next fun _ hc =>
      (Upholds.outcome hc.meets_asCards).next fun cards _ => .change fun _ hm =>
        .foldl (fun c _ _ hm' => hm'.discardFromHand c.id) hm
  | .draw player count, h, _ =>
    (upholds_resolvePlayers (hK.fits _ h).1.1).next fun _ _ =>
      (upholds_evaluate count (hK.fits _ h).1.2).next fun n _ =>
        .forM fun c _ => .lift (Play.upholds_drawCards hK c n.toNat)
  | .endTurn, _, hbears => by
    have hend := hbears _ List.mem_cons_self
    have hbegin := hbears _ (List.mem_cons_of_mem _ List.mem_cons_self)
    exact .lift (Play.upholds_passTurn hK hrun hend hbegin)
  | .giveAbility target ability duration, h, hbears => by
    refine (upholds_resolvePieces (hK.fits _ h).1.1).next fun ids _ => .context fun outer houter => ?_
    have hduration : ∀ n ∈ duration.or outer.duration, FitsCount n := by
      cases duration with
      | none => exact houter.duration
      | some n => exact (hK.fits _ h).1.2.2
    refine upholds_forEachPiece ids fun id ctx hctx =>
      Play.upholds_install hK hrun hctx id (hK.given _ _ _ h) ?_ hduration
    rintro actions rfl
    exact hbears _ List.mem_cons_self
  | .modifyAttribute target scope modifier, h, hbears =>
    (upholds_resolve target (hK.fits _ h).1.1).next fun targets _ =>
      (upholds_resolveModifier (hK.fits _ h).1.2).next fun _ ha =>
        upholds_modifyAttribute hK hrun (hbears _ List.mem_cons_self) targets scope ha
  | .modifyEnergy player modifier, h, _ =>
    (upholds_resolvePlayers (hK.fits _ h).1.1).next fun _ _ =>
      (upholds_resolveModifier (hK.fits _ h).1.2).next fun _ ha => .forM fun c _ =>
        .look fun _ hm =>
          (Upholds.outcome (Adjustment.meets_apply ha (hm.seats c).energy.available)).next
            fun _ havailable => .change fun _ hm' => hm'.changeSeat c (·.setAvailable havailable)
  | .restoreHealth target none, h, _ =>
    (upholds_resolvePieces (hK.fits _ h).1.1).next fun _ _ =>
      .forM fun id _ => upholds_restorePiece none id
  | .restoreHealth target (some n), h, _ =>
    (upholds_resolvePieces (hK.fits _ h).1.1).next fun _ _ =>
      (upholds_evaluate n ((hK.fits _ h).1.2 n rfl)).next fun amount _ =>
        .forM fun id _ => upholds_restorePiece (some amount) id
  | .setAttribute target scope value, h, hbears =>
    (upholds_resolve target (hK.fits _ h).1.1).next fun targets _ =>
      (upholds_evaluate value (hK.fits _ h).1.2).next fun _ hi =>
        upholds_modifyAttribute hK hrun (hbears _ List.mem_cons_self) targets scope hi
  | .swapAttributes target first second, h, hbears =>
    (upholds_resolvePieces (hK.fits _ h).1).next fun ids _ =>
      upholds_changeEach hK hrun (hbears _ List.mem_cons_self) ids fun _ hp =>
        hp.swap first second
  | .takeControl player target, h, _ => by
    refine (upholds_resolvePlayers (hK.fits _ h).1.1).next fun players _ => ?_
    split
    · exact .pure trivial
    · rename_i owner _
      refine (upholds_resolvePieces (hK.fits _ h).1.2).next fun ids _ => ?_
      exact (Upholds.change fun _ hm => .foldl (fun id _ _ hm' =>
        hm'.takeControl owner id) hm).next fun _ _ => .change fun _ hm => hm.checkVictory
  | .returnToHand target, h, _ =>
    (upholds_resolvePieces (hK.fits _ h).1).next fun _ _ =>
      .forM fun id _ => .lift (Play.upholds_returnToHand hK id)
  | .movePiece target destination, h, _ => by
    refine (upholds_resolvePieces (hK.fits _ h).1.1).next fun ids _ => ?_
    refine (upholds_resolveCells (hK.fits _ h).1.2).next fun hexes hhexes => ?_
    split
    · rename_i id hex _ hhead
      exact .change fun _ hm => hm.moveTo id (hhexes hex (List.mem_of_mem_head? hhead))
    · exact .pure trivial
  | .spawnPiece card hex owner, h, hbears => by
    obtain ⟨hcard, hhex, howner⟩ := (hK.fits _ h).1
    have hplaces := hbears _ List.mem_cons_self
    have hplayed := hbears _ (List.mem_cons_of_mem _ List.mem_cons_self)
    refine (upholds_resolve card hcard).next fun _ hc => ?_
    refine (Upholds.outcome hc.meets_asCards).next fun cards hcards => ?_
    refine (upholds_resolveCells hhex).next fun hexes hhexes => ?_
    refine (upholds_resolvePlayers howner).next fun players _ => ?_
    refine .context fun ctx hctx => .look fun m _ => ?_
    dsimp only
    split
    · rename_i c x hfirst hcell
      have hc : c.Abides K := hcards c (List.mem_of_mem_head? hfirst)
      have hx : x.Fits := hhexes x (List.mem_of_mem_head? hcell)
      exact (Upholds.lift (Play.upholds_placeCard hK hrun hctx hplaces hplayed hc hx _
        false)).next fun _ _ => .pure trivial
    · exact .pure trivial
  | .ifHolds condition actions, h, hbears => by
    refine (upholds_evaluateState (hK.fits _ h).1.1).next fun holds _ => ?_
    split
    · exact upholds_executeAll hK hrun actions (hK.branch _ _ h) hbears
    · exact .pure trivial

theorem upholds_executeAll (hK : K.Coherent) (hrun : run.Upholds K strict copes) :
    (actions : List Action) → K.admits (.actions actions) →
    (∀ x ∈ consequencesOf actions, K.Bears copes x) →
    Upholds K strict (fun _ => True) (executeAll run actions)
  | [], _, _ => .pure trivial
  | a :: as, h, hbears => by
    obtain ⟨hfirst, hrest⟩ := List.forall_mem_append.1 hbears
    refine (Upholds.note _).next fun _ _ => ?_
    refine (upholds_execute hK hrun a (hK.head a as h) hfirst).next fun _ _ => ?_
    exact (Upholds.lift (Play.upholds_reapply hK)).next fun _ _ =>
      upholds_executeAll hK hrun as (hK.tail a as h) hrest

end

end Resolving

/-- One level deeper, a runner copes with the actions whose consequences it bore before. -/
theorem Runner.Upholds.deeper {depth : Nat} {copes : List Action → Prop} (hK : K.Coherent)
    (hrun : (Play.runner depth).Upholds K strict copes) :
    (Play.runner (depth + 1)).Upholds K strict fun actions =>
      ∀ x ∈ consequencesOf actions, K.Bears copes x :=
  fun _ _ hctx hadmits hbears => (Resolving.upholds_executeAll hK hrun _ hadmits hbears).run' hctx

end HexDuel
