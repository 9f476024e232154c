import HexDuel.Proofs.Conduct

/-!
Events and actions go by acts, to every depth of effects that cause one another. Who is handed the
turn finds that nothing is asked any more of the player before.
-/

set_option autoImplicit false

namespace HexDuel

theorem steady_swap (first second : Attribute) : Steady (·.swap first second) := by
  intro p
  simp only [Piece.swap]
  split <;> exact ⟨rfl, rfl⟩

theorem goesOn_swap (first second : Attribute) (p : Piece) :
    p.GoesOn false (p.swap first second) := by
  simp only [Piece.swap]
  split <;> exact .of_eq rfl rfl rfl

/-- Who is condemned is doomed. -/
theorem Piece.doomed_of_condemn {p : Piece} {doomed : Bool}
    (h : p.condemn.isDoomed = .ok doomed) : doomed = true := by
  unfold isDoomed at h
  cases hhealth : p.condemn.health with
  | error f => rw [hhealth] at h; cases h
  | ok health =>
    rw [hhealth] at h
    cases h
    exact Bool.or_true _

/-- A mark that lets no object act more than before leaves its moves alone. -/
theorem Mark.movesMade_eq {f : Piece → Piece} (hf : Mark f)
    (hgoes : ∀ p : Piece, p.GoesOn false (f p)) (p : Piece) : (f p).movesMade = p.movesMade := by
  have hwaits := congrFun ((hgoes { p with cantMove := true }).bars rfl) .move
  cases hf with
  | mayMoveAgain | mayMoveAndAttackAgain => cases hwaits
  | swap => simp only [Piece.swap]; split <;> rfl
  | _ => rfl

theorem Inquiry.conduct (s s' : Stage) (h : Inquiry s s') : Conduct s s' :=
  .errand (.inquiry h) (h.frugal s s') (.of_board h.board) (.of_board h.board)

namespace Play

theorem Goes.conduct {α : Type} {p : Play α} (hp : Goes Conduct p) {s s' : Stage} {a : α}
    (h : p.run s = .ok (a, s')) : Conduct s s' := .of_course (hp s a s' h)

theorem acts_reapply : Goes Conduct reapply := fun _ _ _ h => .single (.reapply h)

/-- A mark of an object, which lets it act no more than before. -/
theorem acts_mark (id : PieceId) {f : Piece → Piece} (hf : Mark f) (hsteady : Steady f)
    (hgoes : ∀ p : Piece, p.GoesOn false (f p)) : Goes Conduct (change (·.changePiece id f)) :=
  .change fun _ => .errand (.mark id hf hsteady) (.of_bearing rfl) (.piece id fun p => (hgoes p).mono)
    (.piece id fun p => Int.le_of_eq (hf.movesMade_eq hgoes p).symm)

/-- All that leaves the accounts alone. -/
theorem acts_turnover {f : Match → Match} (hf : Turnover f) (hfrugal : ∀ s : Stage, s.Frugal (s.map f)) :
    Goes Conduct (change f) :=
  .change fun s => .errand (.turnover hf) (hfrugal s) (.of_board (hf.board s.game))
    (.of_board (hf.board s.game))

theorem acts_log (player : Option Color) (text : String) (cards : List Card) :
    Goes Conduct (change (·.addLog player text cards)) :=
  .change fun s => (Inquiry.addLog player text cards).conduct s

theorem goes_returnToHand (id : PieceId) : Goes Conduct (returnToHand id) := by
  intro s a s' h
  obtain ⟨r, s₁, hremove, hrest⟩ := run_bind h
  obtain ⟨rfl, rfl, -⟩ | ⟨p, mid, rfl, htaken, rfl⟩ := takenOff_of_run hremove
  · cases hrest
    exact .refl
  · cases hrest
    exact .single (.giveBack htaken)

theorem goes_drawCards (player : Color) (count : Nat) : Goes Conduct (drawCards player count) :=
  Goes.next (.change fun s => .errand (.deal player count)
    (.of_bearing (Match.bearing_deal player count s.game))
    (.of_board (Match.board_deal player count s.game))
    (.of_board (Match.board_deal player count s.game))) fun _ => acts_reapply

end Play

/-! ### Events -/

/-- Whatever a runner carries out goes by acts. -/
def Runner.Goes (run : Runner) : Prop := ∀ ctx actions, Play.Goes Conduct (run ctx actions)

/-- While no turn ends and nobody is asked, a player who has nothing to choose has nothing. -/
theorem Steps.selection_none {ends : Bool} {s s' : Stage} {c : Color} (h : Steps false ends s s')
    (hs : (s.game.seat c).selection = .none) : (s'.game.seat c).selection = .none := by
  refine h.keeps (I := fun st => (st.game.seat c).selection = .none) (fun s s' hstep hs => ?_) hs
  cases hstep with
  | edit hf => exact (hf.silent.selection s.game c).trans hs
  | consult hasks => cases hasks
  | leave d =>
    rw [Match.selection_setStatus]
    by_cases hd : c = d
    · subst hd
      exact Match.selection_setSelection_self _ _ _
    · exact (Match.selection_setSelection_of_ne _ _ hd).trans hs
  | _ => exact hs

namespace Play

theorem goes_hears (o : Occurrence) (owner : PieceId) (t : Trigger) :
    Goes Inquiry (hears o owner t) := by
  unfold hears
  split
  · exact .look fun _ =>
      ((Resolving.goes_resolve (fun _ _ h => h) _).run' _).next fun _ => .pure _
  · exact .pure _

theorem goes_answersAmong (o : Occurrence) (owner : PieceId) (controller : Color)
    (ts : List Trigger) : Goes Inquiry (answersAmong o owner controller ts) := by
  induction ts with
  | nil => exact .pure _
  | cons t ts ih => exact (goes_hears o owner t).next fun _ => ih.next fun _ => .pure _

theorem goes_answersOf (o : Occurrence) (ids : List PieceId) : Goes Inquiry (answersOf o ids) := by
  induction ids with
  | nil => exact .pure _
  | cons id ids ih =>
    have hrest : ∀ found, Goes Inquiry (do return found ++ (← answersOf o ids)) :=
      fun found => ih.next fun _ => .pure _
    refine .piece? fun p => ?_
    split
    · exact hrest []
    · exact (goes_answersAmong o id _ _).next hrest

section Running

variable {run : Runner} (hrun : run.Goes)
include hrun

theorem goes_occur (o : Occurrence) (parent : Context) {byDefault : Play Unit}
    (hdefault : Goes Conduct byDefault) : Goes Conduct (occur run o parent byDefault) := by
  have hanswers : ∀ answers : List Answer, Goes Conduct (answers.forM fun a =>
      run (o.context a.owner a.controller a.trigger parent.interactive) a.trigger.actions) :=
    fun answers => .forM fun a => hrun _ _
  refine .look fun m => ?_
  refine ((goes_answersOf o _).mono Inquiry.conduct).next fun answers => ?_
  split
  · exact hdefault.next fun _ => hanswers answers
  · exact hanswers answers

/-- What is asked of a player is taken back first, and nobody is asked while the turn ends. -/
theorem ended_of_run (hquiet : run.Built false) {a : Unit} {s s' : Stage}
    (h : (endTurn run).run s = .ok (a, s')) :
    ∃ ended, Conduct s.retire ended ∧ (ended.game.seat s.game.turn).selection = .none ∧
      s' = ended.handOver s.game.turn.opponent := by
  have hrest : (do
      leave s.game.turn
      change (·.changeBoard (·.mapPieces (·.endTurnOf s.game.turn)))
      change (·.tickDurations)
      occur run (.ofPlayer .endOfTurn s.game.turn) .empty (Pure.pure ())
      change (·.checkVictory)
      change fun m => { m with turn := s.game.turn.opponent } : Play Unit).run s = .ok (a, s') := h
  obtain ⟨_, s₁, hleave, hrest⟩ := run_bind hrest
  cases hleave
  obtain ⟨_, s₂, hend, hrest⟩ := run_bind hrest
  cases hend
  obtain ⟨_, s₃, htick, hrest⟩ := run_bind hrest
  cases htick
  obtain ⟨_, s₄, hoccur, hrest⟩ := run_bind hrest
  cases hrest
  refine ⟨s₄, (goes_occur hrun _ _ (.pure ())).conduct hoccur, ?_, rfl⟩
  have hannounce : Steps false true _ s₄ := (built_announce hquiet _).steps hoccur
  refine hannounce.selection_none ?_
  refine ((Edit.tickDurations).silent.selection _ _).trans ?_
  refine ((Edit.endTurnOf s.game.turn).silent.selection _ _).trans ?_
  rw [Match.selection_setStatus]
  exact Match.selection_setSelection_self _ _ _

/-- What follows from the beginning of a turn. -/
theorem goes_opening (player : Color) :
    Goes Conduct (do
      drawCards player 1
      occur run (.ofPlayer .beginningOfTurn player) .empty (Pure.pure ())
      change (·.chime player)) :=
  (goes_drawCards player 1).next fun _ => (goes_occur hrun _ _ (.pure ())).next fun _ =>
    acts_turnover (.chime player) fun s => .of_bearing (s.game.bearing_chime player)

theorem begun_of_run {a : Unit} {s s' : Stage} (h : (startTurn run).run s = .ok (a, s')) :
    Conduct (s.beginTurn (min ((s.game.seat s.game.turn).energy.total + 1)
      s.game.limits.maxEnergy)) s' := by
  have hrest := of_run_look h
  dsimp only at hrest
  split at hrest
  · obtain ⟨_, s₁, hnext, hrest⟩ := run_bind hrest
    cases hnext
    obtain ⟨total, s₂, hlift, hrest⟩ := run_bind hrest
    obtain ⟨htotal, rfl⟩ := of_run_lift hlift
    obtain ⟨_, s₃, henergy, hrest⟩ := run_bind hrest
    cases henergy
    obtain ⟨_, s₄, hbegin, hrest⟩ := run_bind hrest
    cases hbegin
    obtain ⟨_, s₅, hnote, hrest⟩ := run_bind hrest
    cases hnote
    obtain rfl := (Outcome.int32_eq_ok_iff.1 htotal).1
    exact (goes_opening hrun s.game.turn).conduct hrest
  · cases hrest

/-- The turn of the player to move ends, and unless the match is decided by then the next one
begins. -/
theorem passed_of_run (hquiet : run.Built false) {a : Unit} {s s' : Stage}
    (h : (passTurn run).run s = .ok (a, s')) :
    ∃ ended begun, Conduct s.retire ended ∧ (ended.game.seat s.game.turn).selection = .none ∧
      (ended.handOver s.game.turn.opponent).Begins begun ∧ Conduct begun s' := by
  obtain ⟨_, s₁, hend, hrest⟩ := run_bind h
  obtain ⟨ended, hended, hasked, rfl⟩ := ended_of_run hrun hquiet hend
  have hrest := of_run_look hrest
  split at hrest
  · rename_i hover
    exact ⟨ended, _, hended, hasked, .begun (by simpa using hover), begun_of_run hrun hrest⟩
  · rename_i hover
    cases hrest
    exact ⟨ended, _, hended, hasked, .closed (by simpa using hover), .refl _⟩

theorem goes_passTurn (hquiet : run.Built false) : Goes Conduct (passTurn run) := by
  intro s a s' h
  obtain ⟨ended, begun, hended, hasked, hbegins, hconduct⟩ := passed_of_run hrun hquiet h
  exact .single ((Conduct.pass hended hasked hbegins).trans hconduct)

/-! ### Destruction and placement -/

/-- What becomes of an object that may be doomed. At the end all is brought up to date. -/
inductive Judged (id : PieceId) (s : Stage) : Stage → Prop where
  | absent : s.game.board.get? id = none → Judged id s s
  | spared {p : Piece} {doomed : Bool} {s' : Stage} : s.game.board.get? id = some p →
    p.isDoomed = .ok doomed → (doomed && !p.falling) = false → reapply.run s = .ok ((), s') →
    Judged id s s'
  | destroyed {p : Piece} {fallen buried s' : Stage} : s.game.board.get? id = some p →
    p.isDoomed = .ok true → p.falling = false → Conduct (s.topple id p.card) fallen →
    Buried id fallen buried → reapply.run buried = .ok ((), s') → Judged id s s'

omit hrun in
/-- A destruction is announced with the object still on the board, and the answers may have taken it
off when it is to be removed. -/
theorem destroyed_of_run {id : PieceId} {cause : Option Cause} {ctx : Context} {p : Piece}
    {a : Unit} {s s' : Stage} (hp : s.game.board.get? id = some p) (hdoomed : p.isDoomed = .ok true)
    (hstanding : p.falling = false) (h : (destroyIfDoomed run id cause ctx).run s = .ok (a, s')) :
    ∃ fallen buried, (occur run ((Occurrence.ofPiece .afterDestroyed id).withCause cause) ctx
        (Pure.pure ())).run (s.topple id p.card) = .ok ((), fallen) ∧
      Buried id fallen buried ∧ reapply.run buried = .ok ((), s') := by
  have hrest := of_run_piece? h
  rw [hp] at hrest
  obtain ⟨doomed, s₁, hlift, hthen⟩ := run_bind hrest
  obtain ⟨hjudged, rfl⟩ := of_run_lift hlift
  obtain rfl := Except.ok.inj (hdoomed.symm.trans hjudged)
  simp only [hstanding] at hthen
  obtain ⟨_, s₂, hfall, hrest⟩ := run_bind hthen
  obtain ⟨_, s₃, hnote, hrest⟩ := run_bind hrest
  obtain ⟨_, s₄, hsound, hrest⟩ := run_bind hrest
  obtain ⟨_, s₅, hlog, hrest⟩ := run_bind hrest
  cases hfall
  cases hnote
  cases hsound
  cases hlog
  obtain ⟨_, fallen, hoccur, hrest⟩ := run_bind hrest
  refine ⟨fallen, ?_⟩
  obtain ⟨r, s₂, hremove, hlast⟩ := run_bind hrest
  obtain ⟨rfl, rfl, hgone⟩ | ⟨q, mid, rfl, htaken, rfl⟩ := takenOff_of_run hremove
  · exact ⟨_, hoccur, .gone hgone, hlast⟩
  · obtain ⟨_, s₃, hdiscard, hreapply⟩ := run_bind hlast
    cases hdiscard
    exact ⟨_, hoccur, .discard htaken, hreapply⟩

theorem judged_of_run {id : PieceId} {cause : Option Cause} {ctx : Context} {a : Unit}
    {s s' : Stage} (h : (destroyIfDoomed run id cause ctx).run s = .ok (a, s')) :
    Judged id s s' := by
  have hwhole := h
  have hrest := of_run_piece? h
  split at hrest
  · rename_i hnone
    cases hrest
    exact .absent hnone
  · rename_i p hp
    obtain ⟨doomed, s₁, hlift, hthen⟩ := run_bind hrest
    obtain ⟨hdoomed, rfl⟩ := of_run_lift hlift
    dsimp only at hthen
    split at hthen
    · rename_i hfalls
      obtain ⟨rfl, hstanding⟩ := Bool.and_eq_true_iff.1 hfalls
      have hstanding : p.falling = false := by simpa using hstanding
      obtain ⟨fallen, buried, hoccur, hburied, hreapply⟩ :=
        destroyed_of_run hp hdoomed hstanding hwhole
      exact .destroyed hp hdoomed hstanding ((goes_occur hrun _ _ (.pure ())).conduct hoccur)
        hburied hreapply
    · rename_i hspared
      exact .spared hp hdoomed (by simpa using hspared) hthen

omit hrun in
theorem Judged.conduct {id : PieceId} {s s' : Stage} (h : Judged id s s') : Conduct s s' := by
  cases h with
  | absent => exact .refl s
  | spared _ _ _ hreapply => exact .reapply hreapply
  | destroyed hp _ hstanding hact hburied hreapply =>
    exact (Conduct.destroy hp hstanding (.inl rfl) hact hburied).trans (.reapply hreapply)

theorem goes_destroyIfDoomed (id : PieceId) (cause : Option Cause) (ctx : Context) :
    Goes Conduct (destroyIfDoomed run id cause ctx) :=
  fun _ _ _ h => .single (judged_of_run hrun h).conduct

/-- The condemned object is destroyed, unless it falls already. -/
theorem goes_condemn (id : PieceId) (ctx : Context) :
    Goes Conduct (do
      change (·.changePiece id (·.condemn))
      destroyIfDoomed run id none ctx) := by
  intro s a s' h
  obtain ⟨_, s₁, hcondemn, hrest⟩ := run_bind h
  cases hcondemn
  have hget : (s.game.changePiece id (·.condemn)).board.get? id =
      (s.game.board.get? id).map (·.condemn) := Board.get?_modify_self _ _ _
  cases judged_of_run hrun hrest with
  | absent hnone =>
    have hnone : s.game.board.get? id = none := Option.map_eq_none_iff.1 (hget.symm.trans hnone)
    exact .single (.condemn id fun p hp => by rw [hnone] at hp; cases hp)
  | @spared q doomed _ hq hdoomed hspared hreapply =>
    obtain ⟨p, hp, rfl⟩ := Option.map_eq_some_iff.1 (hget.symm.trans hq)
    have hdoomed : doomed = true := p.doomed_of_condemn hdoomed
    have hfalling : p.condemn.falling = true := by simpa [hdoomed] using hspared
    refine .single ((Conduct.condemn id fun p' hp' => ?_).trans (.reapply hreapply))
    exact Option.some.inj (hp.symm.trans hp') ▸ hfalling
  | destroyed hq _ hstanding hact hburied hreapply =>
    obtain ⟨p, hp, rfl⟩ := Option.map_eq_some_iff.1 (hget.symm.trans hq)
    have hdestroyed := Conduct.destroy hp hstanding (.inr rfl) hact hburied
    exact .single (hdestroyed.trans (.reapply hreapply))

theorem goes_dealDamage (id : PieceId) (amount : Int) (cause : Option Cause) (ctx : Context) :
    Goes Conduct (dealDamage run id amount cause ctx) := by
  have hdestroy : Goes Conduct (destroyIfDoomed run id cause ctx) :=
    goes_destroyIfDoomed hrun id cause ctx
  refine .piece? fun p => ?_
  split
  · exact .pure _
  · dsimp only
    split
    · refine (Goes.lift _).next fun health => ?_
      have hhurt : Goes Conduct (change (·.changePiece id (·.setHealth health))) :=
        acts_mark id (.setHealth health) (fun _ => ⟨rfl, rfl⟩) fun _ => .of_eq rfl rfl rfl
      refine hhurt.next fun _ => ?_
      refine (acts_log _ _ _).next fun _ => ?_
      exact (goes_occur hrun _ _ (.pure ())).next fun _ => hdestroy
    · exact hdestroy

theorem goes_settleAll (ids : List PieceId) : Goes Conduct (settleAll run ids) := by
  induction ids with
  | nil => exact .pure _
  | cons id ids ih =>
    refine .piece? fun p => ?_
    split
    · exact ih
    · refine (Goes.lift _).next fun doomed => ?_
      split
      · exact (goes_destroyIfDoomed hrun id none .empty).next fun _ => ih
      · exact ih

theorem goes_settle : Goes Conduct (settle run) :=
  acts_reapply.next fun _ => .look fun _ =>
    (goes_settleAll hrun _).next fun _ => acts_turnover .checkVictory .checkVictory

theorem goes_install (id : PieceId) (sentence : Sentence) (duration : Option Nat) (ctx : Context) :
    Goes Conduct (install run id sentence none duration ctx) := by
  refine .look fun m => ?_
  dsimp only
  split
  · split
    · exact hrun _ _
    · exact fun _ _ _ h => .single (.install id _ duration h)
  · exact .pure _

theorem goes_installCard (id : PieceId) (ctx : Context) :
    Goes Conduct (installCard run id ctx) := by
  refine .piece? fun p => ?_
  split
  · exact .pure _
  · exact .forM fun s => goes_install hrun id s none ctx

/-- What is done with an object once it has been placed. -/
theorem goes_welcome (id : PieceId) (ctx : Context) :
    Goes Conduct (do
      installCard run id (ctx.onBehalfOf (← game) id)
      change (·.playSound "spawn.wav")
      occur run (.ofPiece .afterPlayed id) ctx (Pure.pure ())
      reapply
      return some id) := by
  refine .look fun m => (goes_installCard hrun id _).next fun _ => ?_
  refine (acts_turnover (.playSound _) fun _ => .of_bearing rfl).next fun _ => ?_
  refine (goes_occur hrun _ _ (.pure ())).next fun _ => ?_
  exact acts_reapply.next fun _ => .pure _

/-- The object that has been placed is the one that is spoken of. -/
theorem welcomed_of_run {id : PieceId} {ctx : Context} {r : Option PieceId} {s s' : Stage}
    (h : (do
      installCard run id (ctx.onBehalfOf (← game) id)
      change (·.playSound "spawn.wav")
      occur run (.ofPiece .afterPlayed id) ctx (Pure.pure ())
      reapply
      return some id : Play (Option PieceId)).run s = .ok (r, s')) : r = some id ∧ Conduct s s' := by
  refine ⟨?_, (goes_welcome hrun id ctx).conduct h⟩
  obtain ⟨_, _, -, hrest⟩ := run_bind h
  obtain ⟨_, _, -, hrest⟩ := run_bind hrest
  obtain ⟨_, _, -, hrest⟩ := run_bind hrest
  obtain ⟨_, _, -, hrest⟩ := run_bind hrest
  obtain ⟨_, _, -, hrest⟩ := run_bind hrest
  cases hrest
  rfl

omit hrun in
theorem run_placeCard (card : Card) (hex : Hex) (owner : Color) (justPlayed : Bool) (ctx : Context)
    (s : Stage) : (placeCard run card hex owner justPlayed ctx).run s =
      (if !card.type.isPiece || !hex.onBoard || s.game.board.occupied hex then return none
      else do
        let id ← freshId
        let piece := { Piece.new id card.reset owner hex with justPlayed := justPlayed }
        if ((← game).board.place? piece).isNone then throw (.hexTaken hex)
        else do
          change (·.changeBoard (·.enter piece))
          installCard run id (ctx.onBehalfOf (← game) id)
          change (·.playSound "spawn.wav")
          occur run (.ofPiece .afterPlayed id) ctx (Pure.pure ())
          reapply
          return some id : Play (Option PieceId)).run s := rfl

/-- A card is placed before all that follows from it, unless the cell cannot take it. -/
theorem placed_of_run {card : Card} {hex : Hex} {owner : Color} {justPlayed : Bool} {ctx : Context}
    {r : Option PieceId} {s s' : Stage}
    (h : (placeCard run card hex owner justPlayed ctx).run s = .ok (r, s')) :
    r = none ∧ s' = s ∨ r = some (s.game.lastId + 1) ∧ s.Takes hex ∧
      Conduct (s.place card hex owner justPlayed) s' := by
  rw [run_placeCard] at h
  split at h
  · cases h
    exact .inl ⟨rfl, rfl⟩
  · rename_i hfits
    simp only [Bool.or_eq_true, Bool.not_eq_true', not_or, Bool.not_eq_false, Bool.not_eq_true]
      at hfits
    obtain ⟨n, s₁, hfresh, hrest⟩ := run_bind h
    obtain ⟨rfl, rfl⟩ := number_of_run hfresh
    have hrest := of_run_look hrest
    split at hrest
    · cases hrest
    · rename_i hplaced
      obtain ⟨_, s₂, hchange, hrest⟩ := run_bind hrest
      cases hchange
      obtain ⟨hr, hafter⟩ := welcomed_of_run hrun hrest
      refine .inr ⟨hr, ⟨hfits.1.2, hfits.2, ?_⟩, hafter⟩
      unfold Board.place? at hplaced
      split at hplaced
      · exact absurd rfl hplaced
      · rename_i hnew
        simp only [Bool.or_eq_true, not_or, Bool.not_eq_true] at hnew
        exact hnew.2

end Running
end Play

/-! ### Actions -/

/-- A card goes from the hand to the discard pile of the same player, if it is in a hand. -/
theorem acts_discardFromHand (id : CardId) (s : Stage) :
    Relation.ReflTransGen Conduct s (s.map (Resolving.discardFromHand id)) := by
  have hmap : s.map (Resolving.discardFromHand id) =
      ⟨Resolving.discardFromHand id s.game, s.trace⟩ := rfl
  rw [hmap]
  unfold Resolving.discardFromHand
  split
  · exact .refl
  · split
    · exact .refl
    · rename_i holder _ _ c hheld
      exact .single (.errand (.spend hheld) (s.frugal_spent holder id c.reset) (.of_board rfl)
        (.of_board rfl))

namespace Resolving

theorem goes_adjustHandCard (scope : Scope) (adjustment : Adjustment) (id : CardId) :
    Goes Conduct (adjustHandCard scope adjustment id) := by
  refine .look fun m => ?_
  split
  · exact .pure _
  · split
    · exact .pure _
    · exact (Goes.outcome _).next fun _ => .change fun s =>
        .errand (.reprint _ id _ _) (.of_bearing (s.game.bearing_changeSeat _ fun _ => rfl))
          (.of_board rfl) (.of_board rfl)

theorem goes_restorePiece (amount : Option Int) (id : PieceId) :
    Goes Conduct (restorePiece amount id) := by
  refine .look fun m => ?_
  split
  · exact .pure _
  · exact (Goes.outcome _).next fun health =>
      .lift (Play.acts_mark id (.setHealth health) (fun _ => ⟨rfl, rfl⟩) fun _ =>
        .of_eq rfl rfl rfl)

theorem goes_resolvePlayers (target : Target) : Goes Inquiry (resolvePlayers target) :=
  (goes_resolve (fun _ _ h => h) target).next fun _ => .outcome _

/-- The cells that a target stands for are known. -/
theorem knows_of_resolveCells {target : Target} {ctx : Context} {s s' : Stage}
    {x : List Hex × Context} (h : ((resolveCells target).run ctx).run s = .ok (x, s')) :
    Relation.ReflTransGen Inquiry s s' ∧ ∀ hex ∈ x.1, s'.Knows hex := by
  obtain ⟨c, ctx', s₁, hresolve, hrest⟩ := run_bind h
  obtain ⟨hcourse, hcells⟩ :=
    finds_resolve target ctx s (c, ctx') s₁ (fun _ h => nomatch h) hresolve
  cases c with
  | hexes xs =>
    cases hrest
    exact ⟨hcourse, hcells⟩
  | _ => cases hrest

theorem goes_forEachPiece {D : Stage → Stage → Prop} (ids : List PieceId)
    {work : PieceId → Context → Play Unit} (hwork : ∀ id ctx, Play.Goes D (work id ctx)) :
    Goes D (forEachPiece ids work) := by
  refine .context fun outer => (Goes.salience _).next fun _ => ?_
  refine (Goes.forM fun id => ?_).next fun _ => .salience _
  refine .look fun m => ?_
  split
  · exact (Goes.salience _).next fun _ => .context fun ctx => .lift (hwork id ctx)
  · exact .pure _

/-- An object is moved to a cell that is known. -/
theorem goes_movePiece (run : Runner) (target destination : Target) :
    Goes Conduct (execute run (.movePiece target destination)) := by
  refine (goes_resolvePieces Inquiry.conduct target).next fun ids => ?_
  intro ctx s x s' h
  obtain ⟨hexes, ctx', s₁, hcells, hrest⟩ := run_bind h
  obtain ⟨hcourse, hknown⟩ := knows_of_resolveCells hcells
  have hact : Conduct s s₁ := .inquired hcourse
  split at hrest
  · rename_i id hex _ hhead
    cases hrest
    have hknows := hknown hex (List.mem_of_mem_head? hhead)
    exact .single (hact.trans (.errand (.moveTo id hex hknows)
      (.of_bearing (s₁.game.bearing_moveTo id hex)) (.moveTo id hex) (.moveTo id hex)))
  · cases hrest
    exact .single hact

section Running

variable {run : Runner} (hrun : run.Goes)
include hrun

theorem goes_modifyAttribute (targets : Collection) (scope : Scope) (adjustment : Adjustment) :
    Goes Conduct (modifyAttribute run targets scope adjustment) := by
  unfold modifyAttribute
  split
  · refine goes_forEachPiece _ fun id ctx => ?_
    have hdestroy : Play.Goes Conduct (Play.destroyIfDoomed run id none ctx) :=
      Play.goes_destroyIfDoomed hrun id none ctx
    refine .piece? fun p => ?_
    split
    · exact hdestroy
    · exact (Play.Goes.lift _).next fun stats =>
        (Play.acts_mark id (.setStats stats) (fun _ => ⟨rfl, rfl⟩) fun _ =>
          .of_eq rfl rfl rfl).next fun _ => hdestroy
  · exact .forM fun c => goes_adjustHandCard scope adjustment c.id
  · exact .fail _

/-- A card is placed on a cell that is known, if it is placed. -/
theorem act_of_spawnPiece {card hex owner : Target} {ctx : Context} {s s' : Stage}
    {x : Unit × Context} (hnoted : .executed (.spawnPiece card hex owner) ∈ s.trace)
    (h : ((execute run (.spawnPiece card hex owner)).run ctx).run s = .ok (x, s')) :
    Conduct s s' := by
  obtain ⟨c, ctx₁, found, hcard, hrest⟩ := run_bind h
  have hfound : Conduct s found := .inquired (inquired_of_resolve hcard)
  cases c with
  | cards cards =>
    obtain ⟨_, _, _, hcards, hrest⟩ := run_bind hrest
    cases hcards
    obtain ⟨hexes, ctx₂, s₂, hcells, hrest⟩ := run_bind hrest
    obtain ⟨players, ctx₃, s₃, hplayers, hrest⟩ := run_bind hrest
    obtain ⟨_, _, _, hcontext, hrest⟩ := run_bind hrest
    cases hcontext
    have hrest := of_run_look hrest
    obtain ⟨hcourse, hknown⟩ := knows_of_resolveCells hcells
    have hcourse' := goes_resolvePlayers owner _ _ _ _ hplayers
    have hinquired := hcourse.trans hcourse'
    split at hrest
    · rename_i c hex hhead hhexes
      have hknows : s₃.Knows hex :=
        knows_of_inquired hcourse' (hknown hex (List.mem_of_mem_head? hhexes))
      obtain ⟨r, _, _, hlift, hrest⟩ := run_bind hrest
      cases hrest
      obtain ⟨_, rfl⟩ | ⟨-, htakes, hafter⟩ := Play.placed_of_run hrun (of_run_lift hlift)
      · exact hfound.trans (.inquired hinquired)
      · exact (Conduct.spawn hnoted hcard hhead hinquired htakes hknows).trans hafter
    · cases hrest
      exact hfound.trans (.inquired hinquired)
  | _ => cases hrest

end Running

/-- Once it is noted, the action goes by acts. -/
def Carries (run : Runner) (a : Action) : Prop :=
  ∀ ctx s x s', .executed a ∈ s.trace → ((execute run a).run ctx).run s = .ok (x, s') → Conduct s s'

theorem Goes.carries {run : Runner} {a : Action} (h : Goes Conduct (execute run a)) :
    Carries run a :=
  fun ctx s x s' _ hrun => .of_course (h ctx s x s' hrun)

theorem act_of_note (a : Action) (s : Stage) : Conduct s ⟨s.game, .executed a :: s.trace⟩ := by
  cases a with
  | endTurn => exact .errand .ending (.note rfl) (.of_board rfl) (.of_board rfl)
  | _ => exact .errand (.note _ rfl) (.note rfl) (.of_board rfl) (.of_board rfl)

/-- Once an action that lets objects act once more is noted, they may. -/
theorem conduct_pardon {f : Piece → Piece} (hf : Mark f) (hsteady : Steady f)
    (hgoes : ∀ p : Piece, p.GoesOn true (f p)) (hrests : ∀ p, 0 ≤ (f p).movesMade)
    (ids : List PieceId) {s : Stage}
    (hnoted : pardons s.trace = true) :
    Conduct s (s.map fun m => ids.foldl (fun m id => m.changePiece id f) m) := by
  induction ids generalizing s with
  | nil => exact .refl s
  | cons id ids ih =>
    have hfirst : Conduct s (s.map (·.changePiece id f)) :=
      .errand (.mark id hf hsteady) (.of_bearing rfl) (.piece id fun p => hnoted.symm ▸ hgoes p)
        (.refresh id hrests (refreshed_of_pardons hnoted))
    exact hfirst.trans (ih hnoted)

theorem carries_pardon {run : Runner} {a : Action} {target : Target} {f : Piece → Piece}
    (ha : a.pardons = true) (hf : Mark f) (hsteady : Steady f)
    (hgoes : ∀ p : Piece, p.GoesOn true (f p)) (hrests : ∀ p, 0 ≤ (f p).movesMade)
    (heq : execute run a = resolvePieces target >>= fun ids => changePieces ids f) :
    Carries run a := by
  intro ctx s x s' hnoted h
  rw [heq] at h
  obtain ⟨ids, ctx', s₁, hfound, hrest⟩ := run_bind h
  have hcourse := goes_resolvePieces (fun _ _ h => h) target _ _ _ _ hfound
  cases hrest
  have hlater : s.trace <:+ s₁.trace := (deeds_of_inquired hcourse).steps.trace_suffix
  exact (Conduct.inquired hcourse).trans
    (conduct_pardon hf hsteady hgoes hrests ids (pardons_of_mem (hlater.subset hnoted) ha))

mutual

theorem carries_execute {run : Runner} (hrun : run.Goes) (hquiet : run.Built false) :
    (a : Action) → Carries run a
  | .moveAgain _ =>
    carries_pardon rfl .mayMoveAgain (fun _ => ⟨rfl, rfl⟩)
      (fun _ => ⟨rfl, fun h => Bool.noConfusion h, fun h => h⟩) (fun _ => Int.le_refl 0) rfl
  | .moveAndAttackAgain _ =>
    carries_pardon rfl .mayMoveAndAttackAgain (fun _ => ⟨rfl, rfl⟩)
      (fun _ => ⟨rfl, fun h => Bool.noConfusion h, fun h => h⟩) (fun _ => Int.le_refl 0) rfl
  | .dealDamage target amount =>
    Goes.carries <| (goes_resolve Inquiry.conduct target).next fun _ =>
      (goes_number Inquiry.conduct amount).next fun amount => .look fun _ =>
        (Goes.outcome _).next fun ids => goes_forEachPiece ids fun id ctx =>
          Play.goes_dealDamage hrun id amount none ctx
  | .destroy target =>
    Goes.carries <| (goes_resolvePieces Inquiry.conduct target).next fun ids =>
      goes_forEachPiece ids fun id ctx => Play.goes_condemn hrun id ctx
  | .discard target =>
    Goes.carries <| (goes_resolve Inquiry.conduct target).next fun _ =>
      (Goes.outcome _).next fun cards =>
        .lift (.foldl (fun c : Card => .course (acts_discardFromHand c.id)) cards)
  | .draw player count =>
    Goes.carries <| ((goes_resolvePlayers player).mono Inquiry.conduct).next fun players =>
      (goes_number Inquiry.conduct count).next fun count =>
        .forM fun c => .lift (Play.goes_drawCards c count.toNat)
  | .endTurn => Goes.carries <| .lift (Play.goes_passTurn hrun hquiet)
  | .giveAbility target ability duration =>
    Goes.carries <| (goes_resolvePieces Inquiry.conduct target).next fun ids => .context fun _ =>
      goes_forEachPiece ids fun id ctx => Play.goes_install hrun id ability _ ctx
  | .modifyAttribute target scope modifier =>
    Goes.carries <| (goes_resolve Inquiry.conduct target).next fun targets =>
      (goes_resolveModifier Inquiry.conduct modifier).next fun _ =>
        goes_modifyAttribute hrun targets scope _
  | .modifyEnergy player modifier =>
    Goes.carries <| ((goes_resolvePlayers player).mono Inquiry.conduct).next fun players =>
      (goes_resolveModifier Inquiry.conduct modifier).next fun _ => .forM fun c =>
        .look fun _ => Goes.known fun _ happly =>
          .change fun _ => .fund c (Adjustment.nonneg_of_apply happly)
  | .restoreHealth target none =>
    Goes.carries <| (goes_resolvePieces Inquiry.conduct target).next fun _ =>
      .forM fun id => goes_restorePiece none id
  | .restoreHealth target (some n) =>
    Goes.carries <| (goes_resolvePieces Inquiry.conduct target).next fun _ =>
      (goes_number Inquiry.conduct n).next fun amount =>
        .forM fun id => goes_restorePiece (some amount) id
  | .setAttribute target scope value =>
    Goes.carries <| (goes_resolve Inquiry.conduct target).next fun targets =>
      (goes_number Inquiry.conduct value).next fun _ => goes_modifyAttribute hrun targets scope _
  | .swapAttributes target first second =>
    Goes.carries <| (goes_resolvePieces Inquiry.conduct target).next fun ids =>
      goes_forEachPiece ids fun id ctx =>
        (Play.acts_mark id (.swap first second) (steady_swap first second)
          (goesOn_swap first second)).next fun _ =>
          Play.goes_destroyIfDoomed hrun id none ctx
  | .takeControl player target => by
    refine Goes.carries (((goes_resolvePlayers player).mono Inquiry.conduct).next fun players => ?_)
    split
    · exact .pure _
    · rename_i owner _
      refine (goes_resolvePieces Inquiry.conduct target).next fun ids => ?_
      have htake : ∀ id : PieceId, Play.Goes Conduct (Play.change (takeControl owner id)) :=
        fun id => .change fun _ => .delay (.takeControl owner id)
      exact (Goes.lift (.foldl htake ids)).next fun _ =>
        .lift (Play.acts_turnover .checkVictory .checkVictory)
  | .returnToHand target =>
    Goes.carries <| (goes_resolvePieces Inquiry.conduct target).next fun _ =>
      .forM fun id => .lift (Play.goes_returnToHand id)
  | .movePiece target destination => Goes.carries <| goes_movePiece run target destination
  | .spawnPiece _ _ _ => fun _ _ _ _ hnoted h => act_of_spawnPiece hrun hnoted h
  | .ifHolds condition actions => by
    refine Goes.carries ((goes_evaluateState Inquiry.conduct condition).next fun holds => ?_)
    split
    · exact goes_executeAll hrun hquiet actions
    · exact .pure _

theorem goes_executeAll {run : Runner} (hrun : run.Goes) (hquiet : run.Built false) :
    (actions : List Action) → Goes Conduct (executeAll run actions)
  | [] => .pure _
  | a :: as => by
    intro ctx s x s' h
    obtain ⟨_, ctx₁, s₁, hnote, hrest⟩ := run_bind h
    cases hnote
    obtain ⟨_, ctx₂, s₂, hexecute, hrest⟩ := run_bind hrest
    have hexecuted : Conduct s s₂ := (act_of_note a s).trans
      (carries_execute hrun hquiet a _ _ _ _ List.mem_cons_self hexecute)
    have hlater : Goes Conduct (do
        (Play.reapply : Play Unit)
        executeAll run as) :=
      (Goes.lift Play.acts_reapply).next fun _ => goes_executeAll hrun hquiet as
    exact (Relation.ReflTransGen.single hexecuted).trans (hlater _ _ _ _ hrest)

end

end Resolving

namespace Play

/-- However deep effects may cause one another, all that is carried out goes by acts. -/
theorem goes_runner (depth : Nat) : (runner depth).Goes := by
  induction depth with
  | zero => exact fun _ _ => .fail _
  | succ depth ih =>
    intro ctx actions
    exact (Resolving.goes_executeAll ih (built_runner false depth) actions).run' ctx

end Play
end HexDuel
