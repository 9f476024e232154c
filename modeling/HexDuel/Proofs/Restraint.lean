import HexDuel.Proofs.Sheets
import HexDuel.Proofs.UpholdingTargets

/-!
Upkeep keeps to its own. Apart from the abilities and what they write it leaves the match as it is:
it draws random numbers, hands out numbers and adds lines to the log, and that is all. Nobody is
asked on the way, since abilities are brought up to date without a player.
-/

set_option autoImplicit false

namespace HexDuel

/-! ### What upkeep has no part in -/

/-- The object without abilities, and without anything that abilities write on objects. -/
def Piece.unattended (p : Piece) : Piece :=
  { p with passives := [], triggers := [], activations := [], statuses := [], adjustments := [] }

theorem Piece.Rewritten.unattended {p q : Piece} (h : p.Rewritten q) :
    q.unattended = p.unattended := by
  obtain ⟨_, _, _, _, _, rfl⟩ := h
  rfl

/-- The match without abilities and what they write, before the first random number and the first
number of its own, and with an empty log. -/
def Match.unattended (m : Match) : Match :=
  { m with
    board := m.board.mapPieces (·.unattended)
    seats := ⟨m.seats.blue.unwritten, m.seats.orange.unwritten⟩
    random := .ofSeed m.random.seed
    lastId := 0
    log := [] }

namespace Match

/-- Objects have been rewritten and costs of cards in hand adjusted, numbers have been drawn and
handed out, and lines that are about no player have been added to the log. Nothing else has
changed. -/
structure Restrained (m m' : Match) : Prop where
  board : m.board.Becomes Piece.Rewritten m'.board
  seat : ∀ c, (m'.seat c).unwritten = (m.seat c).unwritten
  seed : m'.random.seed = m.random.seed
  lastId : m.lastId ≤ m'.lastId
  log : ∃ lines : List LogEntry, m'.log = m.log ++ lines ∧ ∀ e ∈ lines, e.player = none
  rest : { m' with
    board := m.board, seats := m.seats, random := m.random, lastId := m.lastId, log := m.log } = m

variable {m m' m'' : Match}

namespace Restrained

theorem refl (m : Match) : m.Restrained m :=
  ⟨.refl .refl m.board, fun _ => rfl, rfl, Nat.le_refl _, ⟨[], by simp⟩, rfl⟩

theorem trans (h : m.Restrained m') (h' : m'.Restrained m'') : m.Restrained m'' where
  board := .trans (fun _ _ _ => .trans) h.board h'.board
  seat c := (h'.seat c).trans (h.seat c)
  seed := h'.seed.trans h.seed
  lastId := Nat.le_trans h.lastId h'.lastId
  log := by
    obtain ⟨lines, hlog, hnone⟩ := h.log
    obtain ⟨lines', hlog', hnone'⟩ := h'.log
    refine ⟨lines ++ lines', by rw [hlog', hlog, List.append_assoc], ?_⟩
    exact List.forall_mem_append.2 ⟨hnone, hnone'⟩
  rest := by
    have hrest := h.rest
    rw [← h'.rest] at hrest
    exact hrest

/-- Nothing is drawn, handed out or told. -/
theorem of_written (hboard : m.board.Becomes Piece.Rewritten m'.board)
    (hseat : ∀ c, (m'.seat c).unwritten = (m.seat c).unwritten)
    (hrest : { m' with board := m.board, seats := m.seats } = m) : m.Restrained m' := by
  have hrandom : m'.random = m.random := (congrArg Match.random hrest :)
  have hlastId : m'.lastId = m.lastId := (congrArg Match.lastId hrest :)
  have hlog : m'.log = m.log := (congrArg Match.log hrest :)
  refine ⟨hboard, hseat, by rw [hrandom], Nat.le_of_eq hlastId.symm,
    ⟨[], by simp [hlog]⟩, ?_⟩
  rw [← hrandom, ← hlastId, ← hlog]
  exact hrest

/-- An object is rewritten. -/
theorem changePiece (m : Match) (id : PieceId) {f : Piece → Piece}
    (hf : ∀ p : Piece, p.Rewritten (f p)) : m.Restrained (m.changePiece id f) :=
  of_written (.modify .refl hf m.board id) (fun _ => rfl) rfl

theorem mapPieces (m : Match) {f : Piece → Piece} (hf : ∀ p : Piece, p.Rewritten (f p)) :
    m.Restrained (m.changeBoard (·.mapPieces f)) :=
  of_written (.mapPieces hf m.board) (fun _ => rfl) rfl

/-- The costs of cards in one hand are adjusted. -/
theorem changeHand (m : Match) (c : Color) {f : List Card → List Card}
    (hf : ∀ cards, (f cards).map Card.reset = cards.map Card.reset) :
    m.Restrained (m.changeSeat c fun s => { s with hand := f s.hand }) := by
  refine of_written (.refl .refl m.board) (fun d => ?_) rfl
  cases c <;> cases d <;>
    simp [Match.changeSeat, PerSide.modify, Match.seat, PerSide.get, Seat.unwritten, hf]

theorem withdrawApplied (a : Passive) (m : Match) : m.Restrained (m.withdrawApplied a) := by
  have hclear : ∀ p : Piece, p.Rewritten (a.clear p) := Piece.upkept_rewritten.clear a
  have hcosts : ∀ (c : Color) (m : Match), m.Restrained
      (m.changeSeat c fun s => { s with hand := s.hand.map (·.dropCostOf a.id) }) := fun c m =>
    changeHand m c (f := fun cards => cards.map (·.dropCostOf a.id)) fun cards => by
      simp [Function.comp_def, Card.dropCostOf, Card.reset]
  unfold Match.withdrawApplied
  split
  · unfold Passive.clear at hclear
    unfold withdraw
    split <;> rename_i heffect <;> simp only [heffect] at hclear
    · exact ((mapPieces m hclear).trans (hcosts .blue _)).trans (hcosts .orange _)
    · exact mapPieces m hclear
    · exact mapPieces m hclear
    · exact mapPieces m hclear
  · exact .refl m

theorem withdrawAll (as : List Passive) (m : Match) : m.Restrained (m.withdrawAll as) := by
  induction as generalizing m with
  | nil => exact .refl m
  | cons a as ih => exact (withdrawApplied a m).trans (ih (m.withdrawApplied a))

theorem dropDisabled (m : Match) : m.Restrained m.dropDisabled :=
  (mapPieces m Piece.upkept_rewritten.dropDisabled).trans (withdrawAll _ _)

theorem adjustCostOf (ability : AbilityId) (adjustment : Adjustment) (id : CardId) (m : Match) :
    m.Restrained (Resolving.adjustCostOf ability adjustment id m) := by
  unfold Resolving.adjustCostOf
  split
  · exact changeHand m _ (Seat.map_changeFirst fun card =>
      card.reset_adjustCost ability adjustment)
  · exact .refl m

/-- A number is handed out. -/
theorem number (s : Stage) : s.game.Restrained s.number.game where
  board := .refl .refl s.game.board
  seat _ := rfl
  seed := rfl
  lastId := Nat.le_succ _
  log := ⟨[], by simp [Stage.number], by simp⟩
  rest := rfl

/-- Random numbers are drawn. -/
theorem drawn (m : Match) {g : Generator} (hseed : g.seed = m.random.seed) :
    m.Restrained { m with random := g } where
  board := .refl .refl m.board
  seat _ := rfl
  seed := hseed
  lastId := Nat.le_refl _
  log := ⟨[], by simp, by simp⟩
  rest := rfl

theorem addLog (m : Match) (text : String) (cards : List Card) :
    m.Restrained (m.addLog none text cards) where
  board := .refl .refl m.board
  seat _ := rfl
  seed := rfl
  lastId := Nat.le_refl _
  log := ⟨_, rfl, by simp⟩
  rest := rfl

theorem unattended (h : m.Restrained m') : m'.unattended = m.unattended := by
  have hboard : m'.board.mapPieces (·.unattended) = m.board.mapPieces (·.unattended) := by
    obtain ⟨g, hg, heq⟩ := h.board
    simp [heq, Board.mapPieces, (hg _).unattended]
  have hblue : m'.seats.blue.unwritten = m.seats.blue.unwritten := h.seat .blue
  have horange : m'.seats.orange.unwritten = m.seats.orange.unwritten := h.seat .orange
  unfold Match.unattended
  rw [hboard, hblue, horange, h.seed]
  exact congrArg (fun n : Match => { n with
    board := m.board.mapPieces (·.unattended)
    seats := ⟨m.seats.blue.unwritten, m.seats.orange.unwritten⟩
    random := .ofSeed m.random.seed
    lastId := 0
    log := [] }) h.rest

end Restrained
end Match

/-! ### Finding targets with nobody to ask -/

def Stage.Restrained (s s' : Stage) : Prop := s.game.Restrained s'.game

theorem Stage.restrained_of_course {s s' : Stage}
    (h : Relation.ReflTransGen Stage.Restrained s s') : s.game.Restrained s'.game := by
  induction h with
  | refl => exact .refl _
  | tail _ hlast ih => exact ih.trans hlast

namespace Resolving

variable {α β : Type}

/-- With nobody to ask, each run that ends well is restrained, and there is nobody to ask then. -/
def Restrained (r : Resolving α) : Prop :=
  ∀ ctx s x s', ctx.interactive = false → (r.run ctx).run s = .ok (x, s') →
    s.game.Restrained s'.game ∧ x.2.interactive = false

namespace Restrained

theorem lift {p : Play α} (h : Play.Goes Stage.Restrained p) :
    Restrained (liftM p : Resolving α) := by
  intro ctx s x s' hctx hrun
  have hrun : (p >>= fun a => Pure.pure (a, ctx)).run s = .ok (x, s') := hrun
  obtain ⟨a, s₁, hfirst, hrest⟩ := Play.run_bind hrun
  cases hrest
  exact ⟨Stage.restrained_of_course (h s a s' hfirst), hctx⟩

theorem outcome (x : Outcome α) : Restrained (liftM x : Resolving α) := lift (.lift x)

theorem pure (a : α) : Restrained (Pure.pure a : Resolving α) := lift (.pure a)

theorem fail (f : Fault) : Restrained (throw f : Resolving α) := by
  intro ctx s x s' _ hrun
  cases hrun

theorem next {r : Resolving α} {k : α → Resolving β} (hr : Restrained r)
    (hk : ∀ a, Restrained (k a)) : Restrained (r >>= k) := by
  intro ctx s x s' hctx hrun
  obtain ⟨a, ctx', s₁, hfirst, hrest⟩ := run_bind hrun
  obtain ⟨hbefore, hctx'⟩ := hr ctx s (a, ctx') s₁ hctx hfirst
  obtain ⟨hafter, hend⟩ := hk a ctx' s₁ x s' hctx' hrest
  exact ⟨hbefore.trans hafter, hend⟩

theorem look {k : Match → Resolving α} (hk : ∀ m, Restrained (k m)) :
    Restrained (game >>= k) := fun ctx s x s' hctx hrun => hk s.game ctx s x s' hctx hrun

theorem context {k : Context → Resolving α}
    (hk : ∀ ctx, ctx.interactive = false → Restrained (k ctx)) :
    Restrained (MonadState.get >>= k) := fun ctx s x s' hctx hrun =>
  hk ctx hctx ctx s x s' hctx hrun

theorem change {f : Match → Match} (h : ∀ m : Match, m.Restrained (f m)) :
    Restrained (Resolving.change f) := lift (.change fun s => h s.game)

theorem note (n : Happening) : Restrained (Resolving.note n) :=
  lift (.note fun s => .refl s.game)

theorem forM {as : List α} {k : α → Resolving Unit} (hk : ∀ a, Restrained (k a)) :
    Restrained (as.forM k) := by
  induction as with
  | nil => exact pure ()
  | cons a as ih => exact (hk a).next fun _ => ih

theorem run' {r : Resolving α} (h : Restrained r) {ctx : Context}
    (hctx : ctx.interactive = false) : Play.Goes Stage.Restrained (r.run' ctx) := by
  intro s a s' hrun
  have hrun : (r.run ctx >>= fun x => Pure.pure x.1).run s = .ok (a, s') := hrun
  obtain ⟨x, s₁, hfirst, hrest⟩ := Play.run_bind hrun
  cases hrest
  exact .single (h ctx s x s' hctx hfirst).1

end Restrained

theorem restrained_pickFrom (count : Nat) (xs : List α) : Restrained (pickFrom count xs) := by
  intro ctx s x s' hctx hrun
  cases hrun
  exact ⟨.drawn s.game (Generator.seed_pick count xs s.game.random), hctx⟩

theorem restrained_random (count : Nat) (c : Collection) : Restrained (random count c) := by
  have hpick : Restrained (pick count c) := by
    cases c <;> exact (restrained_pickFrom count _).next fun _ => .pure _
  refine hpick.next fun picked => (Restrained.note _).next fun _ => .look fun m => ?_
  dsimp only
  split
  · exact .pure _
  · exact (Restrained.change fun m => .addLog m _ _).next fun _ => .pure _

/-- Without a player a choice is made at random. -/
theorem restrained_choose (c : Collection) : Restrained (choose c) := by
  unfold choose
  split
  · exact .fail _
  · refine .context fun ctx hctx => ?_
    rw [hctx]
    exact restrained_random 1 c

theorem restrained_freshCardId : Restrained freshCardId := by
  intro ctx s x s' hctx hrun
  obtain ⟨_, s₁, hfresh, hrest⟩ := Play.run_bind hrun
  obtain ⟨_, rfl⟩ := Play.number_of_run hfresh
  cases hrest
  exact ⟨.number s, hctx⟩

theorem restrained_copyOf (template : Option Card) : Restrained (copyOf template) := by
  cases template with
  | none => exact .pure _
  | some c => exact restrained_freshCardId.next fun _ => .pure _

mutual

theorem restrained_resolve : (t : Target) → Restrained (resolve t)
  | .allTiles => .pure _
  | .cardsInHand player _ =>
    (restrained_resolve player).next fun _ => (Restrained.outcome _).next fun _ =>
      .look fun _ => .pure _
  | .piecesInPlay _ => .look fun _ => .pure _
  | .piecesMatching _ conditions | .tilesMatching conditions =>
    (restrained_compileAll conditions).next fun _ => .look fun _ =>
      (Restrained.outcome _).next fun _ => .pure _
  | .all inner => restrained_resolve inner
  | .choose inner => (restrained_resolve inner).next restrained_choose
  | .random count pool => (restrained_resolve pool).next (restrained_random count)
  | .it | .that | .they | .thisPiece => .look fun _ => .context fun _ _ => .pure _
  | .allPlayers => .look fun _ => .pure _
  | .selfPlayer | .opponent | .salientPlayer => .context fun _ _ => .look fun _ => .pure _
  | .controllerOf inner =>
    (restrained_resolve inner).next fun _ => .look fun _ => (Restrained.outcome _).next fun _ =>
      .pure _
  | .copyOf inner =>
    (restrained_resolve inner).next fun _ => .look fun _ => (Restrained.outcome _).next
      restrained_copyOf
  | .generateCard _ _ _ => restrained_freshCardId.next fun _ => .pure _

theorem restrained_compile : (c : Condition) → Restrained (compile c)
  | .adjacentTo target | .exactDistance _ target | .withinDistance _ target =>
    (restrained_resolve target).next fun _ => .look fun _ => (Restrained.outcome _).next fun _ =>
      .pure _
  | .attributeIs _ _ value => (restrained_evaluate value).next fun _ => .pure _
  | .controlledBy target =>
    (restrained_resolve target).next fun _ => (Restrained.outcome _).next fun _ => .pure _
  | .hasId _ | .hasProperty _ | .unoccupied => .pure _

theorem restrained_compileAll : (cs : List Condition) → Restrained (compileAll cs)
  | [] => .pure _
  | c :: cs =>
    (restrained_compile c).next fun _ => (restrained_compileAll cs).next fun _ => .pure _

theorem restrained_evaluate : (n : Number) → Restrained (evaluate n)
  | .const _ => .pure _
  | .count target => (restrained_resolve target).next fun _ => .pure _
  | .attributeSum target _ =>
    (restrained_resolve target).next fun _ => .look fun _ => (Restrained.outcome _).next fun _ =>
      .outcome _
  | .attributeValue target _ =>
    (restrained_resolve target).next fun _ => .look fun _ => (Restrained.outcome _).next fun _ =>
      .pure _

end

/-! ### Applications -/

theorem restrained_statusKind (phrase : StatusPhrase) : Restrained (statusKind phrase) := by
  cases phrase with
  | canOnlyAttack target =>
    have hpieces : Restrained (resolvePieces target) :=
      (restrained_resolve target).next fun _ => .look fun _ => .outcome _
    exact hpieces.next fun _ => .pure _
  | _ => exact .pure _

theorem restrained_onEachPiece (targets : Collection) {f : Piece → Piece}
    (hf : ∀ p : Piece, p.Rewritten (f p)) : Restrained (onEachPiece targets f) :=
  .look fun _ => (Restrained.outcome _).next fun ids =>
    .lift (.foldl (fun id => .change fun s => .changePiece s.game id hf) ids)

end Resolving

namespace Play

/-- An ability comes to an object under a number of its own. -/
theorem restrained_withNumber (id : PieceId) {f : Nat → Piece → Piece}
    (hf : ∀ n (p : Piece), p.Rewritten (f n p)) :
    Goes Stage.Restrained (freshId >>= fun n => change (·.changePiece id (f n))) := by
  intro s a s' hrun
  obtain ⟨n, s₁, hfresh, hrest⟩ := run_bind hrun
  obtain ⟨rfl, rfl⟩ := number_of_run hfresh
  cases hrest
  exact .single ((Match.Restrained.number s).trans (.changePiece _ id (hf _)))

theorem restrained_grant (id : PieceId) (sentence : Sentence) (source : Option AbilityId)
    (duration : Option Nat) : Goes Stage.Restrained (grant id sentence source duration) := by
  refine .piece? fun p => ?_
  split
  · exact .pure _
  · dsimp only
    split
    · exact .pure _
    · exact .change fun s => .changePiece s.game id fun _ => ⟨_, _, _, _, _, rfl⟩
    · exact restrained_withNumber id fun _ _ => ⟨_, _, _, _, _, rfl⟩
    · exact restrained_withNumber id fun _ _ => ⟨_, _, _, _, _, rfl⟩

end Play

namespace Resolving

theorem restrained_applyPassive (a : Passive) (targets : Collection) :
    Restrained (applyPassive a targets) := by
  have hinscribed : ∀ {f : Piece → Piece}, Inscription f → ∀ p : Piece, p.Rewritten (f p) :=
    Piece.upkept_rewritten.inscribe
  unfold applyPassive
  split
  · have hmodifier : ∀ modifier, Restrained (resolveModifier modifier) := fun _ =>
      (restrained_evaluate _).next fun _ => .pure _
    refine (hmodifier _).next fun adjustment => ?_
    split
    · exact restrained_onEachPiece _ (hinscribed (.adjust a.id _ adjustment))
    · split
      · exact .lift (.foldl (fun c : Card => .change fun s => .adjustCostOf a.id adjustment c.id
          s.game) _)
      · exact .pure _
    · exact .fail _
  · exact (restrained_statusKind _).next fun _ =>
      restrained_onEachPiece _ (hinscribed (.addStatus _))
  · split
    · exact .pure _
    · exact .look fun _ => (Restrained.outcome _).next fun _ =>
        .forM fun id => .lift (Play.restrained_grant id _ _ _)
  · exact restrained_onEachPiece _ (hinscribed (.addActivation _))

end Resolving

/-! ### Upkeep -/

namespace Play

theorem restrained_reapplyOne (owner : PieceId) (id : AbilityId) :
    Goes Stage.Restrained (reapplyOne owner id) := by
  refine .piece? fun p => ?_
  split
  · exact .pure _
  · rename_i a _
    have hwrite : ∀ applied, Goes Stage.Restrained (change (·.changePiece owner
        (·.changePassive id (·.setApplied applied)))) := fun applied =>
      .change fun s => .changePiece s.game owner fun _ => ⟨_, _, _, _, _, rfl⟩
    refine Goes.next (.change fun s => .withdrawApplied a s.game) fun _ => ?_
    dsimp only
    split
    · exact hwrite none
    · refine .look fun m => ?_
      -- The context is that of an object: there is nobody to ask, here and behind the targets.
      intro s _ s' hrun
      obtain ⟨⟨targets, ctx⟩, s₁, hresolve, hrest⟩ := run_bind hrun
      obtain ⟨hfound, hctx⟩ := Resolving.restrained_resolve a.targets _ s _ s₁ rfl hresolve
      have happlied := (Resolving.restrained_applyPassive a targets).run' hctx
      exact .trans (.single hfound) ((happlied.next fun _ => hwrite (some targets)) _ _ _ hrest)

theorem restrained_reapplyOf (owner : PieceId) : Goes Stage.Restrained (reapplyOf owner) := by
  refine .piece? fun p => ?_
  split
  · exact .pure _
  · exact .forM fun a => restrained_reapplyOne owner a.id

theorem restrained_reapply {s s' : Stage} {u : Unit} (h : reapply.run s = .ok (u, s')) :
    s.game.Restrained s'.game := by
  have hgoes : Goes Stage.Restrained reapply :=
    .look fun _ => (Goes.forM restrained_reapplyOf).next fun _ =>
      .change fun s => .dropDisabled s.game
  exact Stage.restrained_of_course (hgoes s u s' h)

/-- Bringing the abilities up to date plays no part of the game: the match is the same but for the
abilities of objects, what passive abilities write on objects and on cards in hand, the random
numbers and the numbers used up, and lines added to the log. -/
theorem unattended_reapply {s s' : Stage} {u : Unit} (h : reapply.run s = .ok (u, s')) :
    s'.game.unattended = s.game.unattended ∧ s.game.log <+: s'.game.log ∧
      s.game.lastId ≤ s'.game.lastId := by
  have hrestrained := restrained_reapply h
  obtain ⟨lines, hlog, -⟩ := hrestrained.log
  exact ⟨hrestrained.unattended, ⟨lines, hlog.symm⟩, hrestrained.lastId⟩

/-- Both cores make one object stronger, picked anew each time. -/
theorem unattended_reapply_solo :
    ∃ s s' : Stage, reapply.run s = .ok ((), s') ∧ s.game.random ≠ s'.game.random ∧
      s.game.log.length < s'.game.log.length ∧
      (s'.game.unattended = s.game.unattended ∧ s.game.log <+: s'.game.log ∧
        s.game.lastId ≤ s'.game.lastId) := by
  have hrun : ((MatchSetup.solo [.giving .any (.random 1 (.piecesInPlay .any))
      (.adjust .health (.add (.const 1)))]).start.holds fun m =>
      (m.submitTraced Match.maxDepth .playSolo).holds fun x =>
        (reapply.run ⟨x.1, []⟩).holds fun y => x.1.random != y.2.game.random &&
          decide (x.1.log.length < y.2.game.log.length)) = true := by decide +kernel
  obtain ⟨m, -, hrun⟩ := Outcome.exists_of_holds hrun
  obtain ⟨⟨m', trace⟩, -, hrun⟩ := Outcome.exists_of_holds hrun
  obtain ⟨⟨u, s'⟩, hreapply, hend⟩ := Outcome.exists_of_holds hrun
  simp only [Bool.and_eq_true, bne_iff_ne, decide_eq_true_eq] at hend
  exact ⟨⟨m', []⟩, s', hreapply, hend.1, hend.2, unattended_reapply hreapply⟩

end Play
end HexDuel
