import HexDuel.Proofs.ActsEffects
import HexDuel.Proofs.History

/-!
What effects bring about, step by step, however deep they cause one another. No object walks and
none strikes: that is for commands. So nothing is shown as a movement and no combat is told of, and
an object that was there before is still on its cell and on its side, unless an action that says
otherwise has been carried out.
-/

set_option autoImplicit false

namespace HexDuel

/-! ### Ripples -/

/-- The board is as it was, no number has been handed out, and nothing is shown. -/
structure Match.Aside (m m' : Match) : Prop where
  board : m'.board = m.board
  lastId : m'.lastId = m.lastId
  animations : m'.animations = m.animations

def Happening.isCombat : Happening → Bool
  | .combat .. => true
  | _ => false

/-- A step of what effects bring about. Objects change sides and are moved only while an action that
says so is carried out. -/
inductive Ripple (s : Stage) : Stage → Prop where
  | tending {s' : Stage} : Tending s s' → Ripple s s'
  | note {h : Happening} : h.isCombat = false → Ripple s ⟨s.game, h :: s.trace⟩
  | aside {f : Match → Match} : s.game.Aside (f s.game) → Ripple s (s.map f)
  | mark (id : PieceId) {f : Piece → Piece} : Mark f → Ripple s (s.map (·.changePiece id f))
  | endTurnOf (c : Color) : Ripple s (s.map (·.changeBoard (·.mapPieces (·.endTurnOf c))))
  | beginTurnOf (c : Color) : Ripple s (s.map (·.changeBoard (·.mapPieces (·.beginTurnOf c))))
  | tickDurations : Ripple s (s.map (·.tickDurations))
  | takeControl (owner : Color) (id : PieceId) {player target : Target} :
    .executed (.takeControl player target) ∈ s.trace →
    Ripple s (s.map (Resolving.takeControl owner id))
  | moveTo (id : PieceId) (hex : Hex) {target destination : Target} :
    .executed (.movePiece target destination) ∈ s.trace →
    Ripple s (s.map (Resolving.moveTo id hex))
  | place (card : Card) (hex : Hex) (owner : Color) (justPlayed : Bool) :
    Ripple s (s.place card hex owner justPlayed)
  | erase (id : PieceId) : Ripple s (s.map (·.changeBoard (·.erase id)))

namespace Match.Aside
variable {m m' m'' : Match}

theorem trans (h : m.Aside m') (h' : m'.Aside m'') : m.Aside m'' :=
  ⟨h'.board.trans h.board, h'.lastId.trans h.lastId, h'.animations.trans h.animations⟩

theorem changeSeat (m : Match) (c : Color) (f : Seat → Seat) : m.Aside (m.changeSeat c f) :=
  ⟨rfl, rfl, rfl⟩

theorem addLog (m : Match) (c : Option Color) (text : String) (cards : List Card) :
    m.Aside (m.addLog c text cards) := ⟨rfl, rfl, rfl⟩

theorem playSound (m : Match) (sound : String) : m.Aside (m.playSound sound) := ⟨rfl, rfl, rfl⟩

theorem checkVictory (m : Match) : m.Aside m.checkVictory := by
  obtain ⟨_, _, _, heq⟩ := m.checkVictory_eq
  rw [heq]
  exact ⟨rfl, rfl, rfl⟩

theorem chime (m : Match) (c : Color) : m.Aside (m.chime c) := by
  unfold Match.chime
  split <;> exact ⟨rfl, rfl, rfl⟩

theorem giveBack (c : Color) (card : Card) (m : Match) : m.Aside (Play.giveBack c card m) := by
  unfold Play.giveBack
  split <;> exact ⟨rfl, rfl, rfl⟩

theorem discardFromHand (id : CardId) (m : Match) :
    m.Aside (Resolving.discardFromHand id m) := by
  unfold Resolving.discardFromHand
  split
  · exact ⟨rfl, rfl, rfl⟩
  · split <;> exact ⟨rfl, rfl, rfl⟩

theorem burnTimes (c : Color) (count : Nat) (m : Match) :
    m.Aside (Play.burnTimes c count m) := by
  induction count generalizing m with
  | zero => exact ⟨rfl, rfl, rfl⟩
  | succ count ih =>
    unfold Play.burnTimes
    split
    · exact ⟨rfl, rfl, rfl⟩
    · have hsilenced := Silenced.burnTop m c
      have hburnt : m.Aside (m.burnTop c) :=
        ⟨board_burnTop m c, hsilenced.lastId, hsilenced.animations⟩
      exact (hburnt.trans (addLog _ _ _ _)).trans (ih _)

theorem deal (c : Color) (count : Nat) (m : Match) : m.Aside (Play.deal c count m) := by
  have hsilenced := Silenced.drawTimes c (min count (Play.room m c)) m
  have hdrawn : m.Aside (Play.drawTimes c (min count (Play.room m c)) m) :=
    ⟨board_drawTimes c _ m, hsilenced.lastId, hsilenced.animations⟩
  exact hdrawn.trans (burnTimes c _ _)

end Match.Aside

/-! ### Effects go by ripples -/

theorem Inquiry.ripple (s s' : Stage) (h : Inquiry s s') : Ripple s s' := .tending (.inquiry h)

namespace Play

theorem ripples_tending {α : Type} {p : Play α} (hp : Goes Tending p) : Goes Ripple p :=
  hp.mono fun _ _ => .tending

theorem ripples_reapply : Goes Ripple reapply := ripples_tending goes_reapply

theorem ripples_aside {f : Match → Match} (hf : ∀ m : Match, m.Aside (f m)) :
    Goes Ripple (change f) :=
  .change fun s => .aside (hf s.game)

theorem ripples_mark (id : PieceId) {f : Piece → Piece} (hf : Mark f) :
    Goes Ripple (change (·.changePiece id f)) := .change fun _ => .mark id hf

theorem ripples_note {h : Happening} (hplain : h.isCombat = false) : Goes Ripple (note h) :=
  .note fun _ => .note hplain

theorem ripples_removePiece (id : PieceId) : Goes Ripple (removePiece id) := by
  refine .piece? fun p => ?_
  split
  · exact .pure _
  · refine Goes.next (.change fun _ => .erase id) fun _ => ?_
    refine (ripples_tending (goes_withdrawAll _)).next fun _ => ?_
    exact ripples_reapply.next fun _ => (ripples_aside .checkVictory).next fun _ => .pure _

theorem ripples_returnToHand (id : PieceId) : Goes Ripple (returnToHand id) := by
  refine (ripples_removePiece id).next fun p => ?_
  split
  · exact .pure _
  · exact ripples_aside (.giveBack _ _)

theorem ripples_drawCards (player : Color) (count : Nat) : Goes Ripple (drawCards player count) :=
  (ripples_aside (.deal player count)).next fun _ => ripples_reapply

/-- A card is placed under the number that is handed out for it. -/
theorem ripples_placing {α : Type} (card : Card) (hex : Hex) (owner : Color) (justPlayed : Bool)
    {k : PieceId → Play α} (hk : ∀ id, Goes Ripple (k id)) :
    Goes Ripple (do
      let id ← freshId
      let piece := { Piece.new id card.reset owner hex with justPlayed := justPlayed }
      if ((← game).board.place? piece).isNone then throw (.hexTaken hex)
      else do
        change (·.changeBoard (·.enter piece))
        k id) := by
  intro s a s' h
  obtain ⟨id, s₁, hfresh, hrest⟩ := run_bind h
  obtain ⟨rfl, rfl⟩ := number_of_run hfresh
  have hrest := of_run_look hrest
  split at hrest
  · cases hrest
  · obtain ⟨_, s₂, hchange, hrest⟩ := run_bind hrest
    cases hchange
    exact .head (.place card hex owner justPlayed) (hk _ _ _ _ hrest)

end Play

/-- Whatever a runner carries out goes by ripples. -/
def Runner.Ripples (run : Runner) : Prop := ∀ ctx actions, Play.Goes Ripple (run ctx actions)

namespace Play
section Running

variable {run : Runner} (hrun : run.Ripples)
include hrun

theorem ripples_occur (o : Occurrence) (parent : Context) {byDefault : Play Unit}
    (hdefault : Goes Ripple byDefault) : Goes Ripple (occur run o parent byDefault) := by
  have hanswers : ∀ answers : List Answer, Goes Ripple (answers.forM fun a =>
      run (o.context a.owner a.controller a.trigger parent.interactive) a.trigger.actions) :=
    fun answers => .forM fun a => hrun _ _
  refine .look fun m => ((goes_answersOf o _).mono Inquiry.ripple).next fun answers => ?_
  split
  · exact hdefault.next fun _ => hanswers answers
  · exact hanswers answers

theorem ripples_announce (o : Occurrence) (parent : Context) :
    Goes Ripple (occur run o parent (pure ())) := ripples_occur hrun o parent (.pure ())

theorem ripples_endTurn : Goes Ripple (endTurn run) := by
  refine .look fun m => ?_
  have hleave : Goes Ripple (leave m.turn) :=
    (ripples_aside (.changeSeat · _ _)).next fun _ =>
      (ripples_aside (.changeSeat · _ _)).next fun _ => ripples_note rfl
  refine hleave.next fun _ => ?_
  refine Goes.next (.change fun _ => .endTurnOf m.turn) fun _ => ?_
  refine Goes.next (.change fun _ => .tickDurations) fun _ => ?_
  refine (ripples_announce hrun _ _).next fun _ => ?_
  exact (ripples_aside .checkVictory).next fun _ => ripples_aside fun _ => ⟨rfl, rfl, rfl⟩

theorem ripples_startTurn : Goes Ripple (startTurn run) := by
  refine .look fun m => ?_
  dsimp only
  split
  · refine Goes.next (.change fun _ => .aside ⟨rfl, rfl, rfl⟩) fun _ => ?_
    refine (Goes.lift _).next fun total => ?_
    refine (ripples_aside (.changeSeat · _ _)).next fun _ => ?_
    refine Goes.next (.change fun _ => .beginTurnOf m.turn) fun _ => ?_
    refine (ripples_note rfl).next fun _ => (ripples_drawCards _ _).next fun _ => ?_
    exact (ripples_announce hrun _ _).next fun _ => ripples_aside (.chime · _)
  · exact fun _ _ _ h => nomatch h

theorem ripples_passTurn : Goes Ripple (passTurn run) := by
  refine (ripples_endTurn hrun).next fun _ => .look fun m => ?_
  split
  · exact ripples_startTurn hrun
  · exact .pure _

theorem ripples_destroyIfDoomed (id : PieceId) (cause : Option Cause) (ctx : Context) :
    Goes Ripple (destroyIfDoomed run id cause ctx) := by
  refine .piece? fun p => ?_
  split
  · exact .pure _
  · refine (Goes.lift _).next fun doomed => ?_
    dsimp only
    split
    · refine (ripples_mark id .fall).next fun _ => (ripples_note rfl).next fun _ => ?_
      refine (ripples_aside (.playSound · _)).next fun _ => ?_
      refine (ripples_aside (.addLog · _ _ _)).next fun _ => ?_
      refine (ripples_announce hrun _ _).next fun _ => (ripples_removePiece id).next fun p => ?_
      split
      · exact (ripples_aside (.changeSeat · _ _)).next fun _ => ripples_reapply
      · exact ripples_reapply
    · exact ripples_reapply

theorem ripples_dealDamage (id : PieceId) (amount : Int) (cause : Option Cause) (ctx : Context) :
    Goes Ripple (dealDamage run id amount cause ctx) := by
  have hdestroy := ripples_destroyIfDoomed hrun id cause ctx
  refine .piece? fun p => ?_
  split
  · exact .pure _
  · dsimp only
    split
    · refine (Goes.lift _).next fun health => (ripples_mark id (.setHealth health)).next fun _ => ?_
      refine (ripples_aside (.addLog · _ _ _)).next fun _ => ?_
      exact (ripples_announce hrun _ _).next fun _ => hdestroy
    · exact hdestroy

theorem ripples_settleAll (ids : List PieceId) : Goes Ripple (settleAll run ids) := by
  induction ids with
  | nil => exact .pure _
  | cons id ids ih =>
    refine .piece? fun p => ?_
    split
    · exact ih
    · refine (Goes.lift _).next fun doomed => ?_
      split
      · exact (ripples_destroyIfDoomed hrun id none .empty).next fun _ => ih
      · exact ih

theorem ripples_settle : Goes Ripple (settle run) :=
  ripples_reapply.next fun _ => .look fun _ =>
    (ripples_settleAll hrun _).next fun _ => ripples_aside .checkVictory

theorem ripples_install (id : PieceId) (sentence : Sentence) (source : Option AbilityId)
    (duration : Option Nat) (ctx : Context) :
    Goes Ripple (install run id sentence source duration ctx) := by
  refine .look fun m => ?_
  dsimp only
  split
  · split
    · exact hrun _ _
    · exact ripples_tending (goes_grant id _ source duration)
  · exact .pure _

theorem ripples_installCard (id : PieceId) (ctx : Context) :
    Goes Ripple (installCard run id ctx) := by
  refine .piece? fun p => ?_
  split
  · exact .pure _
  · exact .forM fun s => ripples_install hrun id s none none ctx

theorem ripples_placeCard (card : Card) (hex : Hex) (owner : Color) (justPlayed : Bool)
    (ctx : Context) : Goes Ripple (placeCard run card hex owner justPlayed ctx) := by
  refine .look fun m => ?_
  split
  · exact .pure _
  · refine ripples_placing card hex owner justPlayed fun id => .look fun m => ?_
    refine (ripples_installCard hrun id _).next fun _ => ?_
    refine (ripples_aside (.playSound · _)).next fun _ => ?_
    exact (ripples_announce hrun _ _).next fun _ => ripples_reapply.next fun _ => .pure _

end Running
end Play

namespace Resolving

theorem ripples_resolvePlayers (target : Target) : Goes Ripple (resolvePlayers target) :=
  (goes_resolvePlayers target).mono Inquiry.ripple

theorem ripples_resolveCells (target : Target) : Goes Ripple (resolveCells target) :=
  (goes_resolve Inquiry.ripple target).next fun _ => .outcome _

theorem ripples_adjustHandCard (scope : Scope) (adjustment : Adjustment) (id : CardId) :
    Goes Ripple (adjustHandCard scope adjustment id) := by
  refine .look fun m => ?_
  split
  · exact .pure _
  · split
    · exact .pure _
    · exact (Goes.outcome _).next fun _ => .lift (Play.ripples_aside (.changeSeat · _ _))

theorem ripples_restorePiece (amount : Option Int) (id : PieceId) :
    Goes Ripple (restorePiece amount id) := by
  refine .look fun m => ?_
  split
  · exact .pure _
  · exact (Goes.outcome _).next fun health => .lift (Play.ripples_mark id (.setHealth health))

theorem ripples_changePieces (ids : List PieceId) {f : Piece → Piece} (hf : Mark f) :
    Goes Ripple (changePieces ids f) :=
  .lift (.foldl (fun id => Play.ripples_mark id hf) ids)

/-- Once it is noted, the action goes by ripples. -/
def Spreads (run : Runner) (a : Action) : Prop :=
  ∀ ctx s x s', .executed a ∈ s.trace → ((execute run a).run ctx).run s = .ok (x, s') →
    Relation.ReflTransGen Ripple s s'

theorem Goes.spreads {run : Runner} {a : Action} (h : Goes Ripple (execute run a)) :
    Spreads run a := fun ctx s x s' _ hrun => h ctx s x s' hrun

section Running

variable {run : Runner} (hrun : run.Ripples)
include hrun

theorem ripples_modifyAttribute (targets : Collection) (scope : Scope) (adjustment : Adjustment) :
    Goes Ripple (modifyAttribute run targets scope adjustment) := by
  unfold modifyAttribute
  split
  · refine goes_forEachPiece _ fun id ctx => .piece? fun p => ?_
    have hdestroy := Play.ripples_destroyIfDoomed hrun id none ctx
    split
    · exact hdestroy
    · exact (Play.Goes.lift _).next fun stats =>
        (Play.ripples_mark id (.setStats stats)).next fun _ => hdestroy
  · exact .forM fun c => ripples_adjustHandCard scope adjustment c.id
  · exact .fail _

omit hrun in
/-- Objects change sides only once that is noted. -/
theorem spreads_takeControl (player target : Target) :
    Spreads run (.takeControl player target) := by
  intro ctx s x s' hnoted h
  obtain ⟨players, ctx₁, s₁, hplayers, hrest⟩ := run_bind h
  have hcourse := goes_resolvePlayers player _ _ _ _ hplayers
  split at hrest
  · cases hrest
    exact Relation.ReflTransGen.mono Inquiry.ripple _ _ hcourse
  · rename_i owner _
    obtain ⟨ids, ctx₂, s₂, hpieces, hrest⟩ := run_bind hrest
    have hcourse := hcourse.trans (goes_resolvePieces (fun _ _ h => h) target _ _ _ _ hpieces)
    have hnoted : .executed (.takeControl player target) ∈ s₂.trace :=
      (deeds_of_inquired hcourse).steps.trace_suffix.subset hnoted
    have htaken : ∀ (ids : List PieceId) (st : Stage), st.trace = s₂.trace →
        Relation.ReflTransGen Ripple st
          (st.map fun m => ids.foldl (fun m id => takeControl owner id m) m) := by
      intro ids
      induction ids with
      | nil => exact fun st _ => .refl
      | cons id ids ih =>
        intro st htrace
        exact .head (.takeControl owner id (htrace ▸ hnoted)) (ih _ htrace)
    obtain ⟨_, ctx₃, s₃, hchange, hrest⟩ := run_bind hrest
    cases hchange
    cases hrest
    exact (Relation.ReflTransGen.mono Inquiry.ripple _ _ hcourse).trans
      ((htaken ids s₂ rfl).tail (.aside (.checkVictory _)))

omit hrun in
/-- An object is moved only once that is noted. -/
theorem spreads_movePiece (target destination : Target) :
    Spreads run (.movePiece target destination) := by
  intro ctx s x s' hnoted h
  obtain ⟨ids, ctx₁, s₁, hpieces, hrest⟩ := run_bind h
  obtain ⟨hexes, ctx₂, s₂, hcells, hrest⟩ := run_bind hrest
  have hcourse := (goes_resolvePieces (fun _ _ h => h) target _ _ _ _ hpieces).trans
    (knows_of_resolveCells hcells).1
  have hripples := Relation.ReflTransGen.mono Inquiry.ripple _ _ hcourse
  split at hrest
  · rename_i id hex _ _
    cases hrest
    exact hripples.tail
      (.moveTo id hex ((deeds_of_inquired hcourse).steps.trace_suffix.subset hnoted))
  · cases hrest
    exact hripples

end Running

mutual

theorem spreads_execute {run : Runner} (hrun : run.Ripples) : (a : Action) → Spreads run a
  | .moveAgain target => Goes.spreads <| (goes_resolvePieces Inquiry.ripple target).next fun ids =>
      ripples_changePieces ids .mayMoveAgain
  | .moveAndAttackAgain target =>
    Goes.spreads <| (goes_resolvePieces Inquiry.ripple target).next fun ids =>
      ripples_changePieces ids .mayMoveAndAttackAgain
  | .dealDamage target amount =>
    Goes.spreads <| (goes_resolve Inquiry.ripple target).next fun _ =>
      (goes_number Inquiry.ripple amount).next fun amount => .look fun _ =>
        (Goes.outcome _).next fun ids => goes_forEachPiece ids fun id ctx =>
          Play.ripples_dealDamage hrun id amount none ctx
  | .destroy target =>
    Goes.spreads <| (goes_resolvePieces Inquiry.ripple target).next fun ids =>
      goes_forEachPiece ids fun id ctx => (Play.ripples_mark id .condemn).next fun _ =>
        Play.ripples_destroyIfDoomed hrun id none ctx
  | .discard target =>
    Goes.spreads <| (goes_resolve Inquiry.ripple target).next fun _ =>
      (Goes.outcome _).next fun cards =>
        .lift (.foldl (fun c : Card => Play.ripples_aside (.discardFromHand c.id)) cards)
  | .draw player count =>
    Goes.spreads <| (ripples_resolvePlayers player).next fun players =>
      (goes_number Inquiry.ripple count).next fun count =>
        .forM fun c => .lift (Play.ripples_drawCards c count.toNat)
  | .endTurn => Goes.spreads <| .lift (Play.ripples_passTurn hrun)
  | .giveAbility target ability duration =>
    Goes.spreads <| (goes_resolvePieces Inquiry.ripple target).next fun ids => .context fun _ =>
      goes_forEachPiece ids fun id ctx => Play.ripples_install hrun id ability none _ ctx
  | .modifyAttribute target scope modifier =>
    Goes.spreads <| (goes_resolve Inquiry.ripple target).next fun targets =>
      (goes_resolveModifier Inquiry.ripple modifier).next fun _ =>
        ripples_modifyAttribute hrun targets scope _
  | .modifyEnergy player modifier =>
    Goes.spreads <| (ripples_resolvePlayers player).next fun players =>
      (goes_resolveModifier Inquiry.ripple modifier).next fun _ => .forM fun c =>
        .look fun _ => (Goes.outcome _).next fun _ => .lift (Play.ripples_aside (.changeSeat · _ _))
  | .restoreHealth target none =>
    Goes.spreads <| (goes_resolvePieces Inquiry.ripple target).next fun _ =>
      .forM fun id => ripples_restorePiece none id
  | .restoreHealth target (some n) =>
    Goes.spreads <| (goes_resolvePieces Inquiry.ripple target).next fun _ =>
      (goes_number Inquiry.ripple n).next fun amount =>
        .forM fun id => ripples_restorePiece (some amount) id
  | .setAttribute target scope value =>
    Goes.spreads <| (goes_resolve Inquiry.ripple target).next fun targets =>
      (goes_number Inquiry.ripple value).next fun _ => ripples_modifyAttribute hrun targets scope _
  | .swapAttributes target first second =>
    Goes.spreads <| (goes_resolvePieces Inquiry.ripple target).next fun ids =>
      goes_forEachPiece ids fun id ctx => (Play.ripples_mark id (.swap first second)).next fun _ =>
        Play.ripples_destroyIfDoomed hrun id none ctx
  | .takeControl player target => spreads_takeControl player target
  | .returnToHand target =>
    Goes.spreads <| (goes_resolvePieces Inquiry.ripple target).next fun _ =>
      .forM fun id => .lift (Play.ripples_returnToHand id)
  | .movePiece target destination => spreads_movePiece target destination
  | .spawnPiece card hex owner => by
    refine Goes.spreads <| (goes_resolve Inquiry.ripple card).next fun _ =>
      (Goes.outcome _).next fun cards => (ripples_resolveCells hex).next fun hexes =>
        (ripples_resolvePlayers owner).next fun players => .context fun ctx => .look fun m => ?_
    split
    · exact (Goes.lift (Play.ripples_placeCard hrun _ _ _ _ _)).next fun _ => .pure _
    · exact .pure _
  | .ifHolds condition actions => by
    refine Goes.spreads ((goes_evaluateState Inquiry.ripple condition).next fun holds => ?_)
    split
    · exact ripples_executeAll hrun actions
    · exact .pure _

theorem ripples_executeAll {run : Runner} (hrun : run.Ripples) :
    (actions : List Action) → Goes Ripple (executeAll run actions)
  | [] => .pure _
  | a :: as => by
    intro ctx s x s' h
    obtain ⟨_, ctx₁, s₁, hnote, hrest⟩ := run_bind h
    cases hnote
    obtain ⟨_, ctx₂, s₂, hexecute, hrest⟩ := run_bind hrest
    have hlater : Goes Ripple (do
        (Play.reapply : Play Unit)
        executeAll run as) :=
      (Goes.lift Play.ripples_reapply).next fun _ => ripples_executeAll hrun as
    have hexecuted := spreads_execute hrun a _ _ _ _ List.mem_cons_self hexecute
    exact .head (.note rfl) (hexecuted.trans (hlater _ _ _ _ hrest))

end

end Resolving

/-- However deep effects may cause one another, all that is carried out goes by ripples. -/
theorem Play.ripples_runner (depth : Nat) : (runner depth).Ripples := by
  induction depth with
  | zero => exact fun _ _ => .fail _
  | succ depth ih => exact fun ctx actions => (Resolving.ripples_executeAll ih actions).run' ctx

end HexDuel
