import HexDuel.Proofs.Aftermath
import HexDuel.Proofs.Economy
import HexDuel.Proofs.Rejected
import HexDuel.Proofs.Ways

/-!
What an object can attack, and how it goes about it. The cells that are offered are those from which
a strike is possible, from where the object stands or after a move; and the cell it goes to before
it strikes is one of its moves and next to its target.
-/

set_option autoImplicit false

namespace HexDuel

/-! ### Cells that can be attacked -/

theorem List.filterAuxM_of_ok {α : Type} {test : α → Outcome Bool} {keep : α → Bool} {xs : List α}
    (h : ∀ x ∈ xs, test x = .ok (keep x)) (found : List α) :
    List.filterAuxM test xs found = .ok ((xs.filter keep).reverse ++ found) := by
  induction xs generalizing found with
  | nil => rfl
  | cons x xs ih =>
    obtain ⟨hx, hxs⟩ := List.forall_mem_cons.1 h
    rw [List.filterAuxM, hx]
    refine (ih hxs _).trans ?_
    cases hkeep : keep x <;> simp [hkeep]

theorem List.filterM_of_ok {α : Type} {test : α → Outcome Bool} {keep : α → Bool} {xs : List α}
    (h : ∀ x ∈ xs, test x = .ok (keep x)) : xs.filterM test = .ok (xs.filter keep) := by
  rw [List.filterM, List.filterAuxM_of_ok h]
  simp

namespace Match
variable {m : Match} {start target : Hex} {p : Piece} {left : Int}

theorem mem_bordering {hexes : List Hex} :
    target ∈ bordering hexes ↔ ∃ h ∈ hexes, target ∈ h.neighbors :=
  List.mem_eraseDups.trans List.mem_flatMap

/-- What is offered for an attack may be attacked, and is next to where the object stands or can go,
whatever cells there are. -/
theorem reached_of_mem_attackHexes {hexes : List Hex} (hp : m.board.pieceAt? start = some p)
    (h : m.attackHexes start = .ok hexes) (ht : target ∈ hexes) :
    m.mayAttack p target = .ok true ∧ ∃ stops, m.movementHexes start = .ok stops ∧
      (start.adjacent target = true ∨ ∃ stop ∈ stops, stop.adjacent target = true) := by
  unfold attackHexes at h
  rw [hp] at h
  obtain ⟨stops, hstops, h⟩ := Outcome.exists_of_bind h
  obtain ⟨hborders, hmay⟩ := List.mem_of_mem_filterM h ht
  obtain ⟨stop, hstop, hnear⟩ := mem_bordering.1 hborders
  have hnear : stop.adjacent target = true := beq_iff_eq.2 (Hex.distance_of_mem_neighbors hnear)
  refine ⟨hmay, stops, hstops, ?_⟩
  obtain rfl | hstop := List.mem_cons.1 hstop
  · exact .inl hnear
  · exact .inr ⟨stop, hstop, hnear⟩

theorem exists_mayAttack {attack : Int} (h : p.attack = .ok attack) (target : Hex) :
    ∃ b, m.mayAttack p target = .ok b := by
  unfold mayAttack
  split
  · exact ⟨_, rfl⟩
  · split
    · rw [h]
      exact ⟨_, rfl⟩
    · exact ⟨_, rfl⟩

/-- What can be attacked: what may be, from the cell of the object or from where it can move. -/
theorem exists_attackHexes (hcells : ∀ p ∈ m.board.pieces, p.hex ∈ Hex.all)
    (hp : m.board.pieceAt? start = some p) (hleft : p.movesLeft = .ok left)
    (hmay : ∀ t, ∃ b, m.mayAttack p t = .ok b) :
    ∃ stops hexes, m.movementHexes start = .ok stops ∧ m.attackHexes start = .ok hexes ∧
      hexes.Nodup ∧ ∀ t, t ∈ hexes ↔ m.mayAttack p t = .ok true ∧
        (start.adjacent t = true ∨ ∃ stop ∈ stops, stop.adjacent t = true) := by
  obtain ⟨hmem, rfl⟩ := Board.mem_of_pieceAt? hp
  have hstart := hcells p hmem
  obtain ⟨stops, hstops, -, -, hreached⟩ := movementHexes_exact hstart hp hleft
  have hmay : ∀ t, m.mayAttack p t = .ok ((m.mayAttack p t).holds id) := fun t => by
    obtain ⟨b, hb⟩ := hmay t
    rw [hb]
    rfl
  have hborders : ∀ t ∈ Hex.all, t ∈ bordering (p.hex :: stops) ↔
      p.hex.adjacent t = true ∨ ∃ stop ∈ stops, stop.adjacent t = true := by
    intro t ht
    simp only [mem_bordering, List.mem_cons, exists_eq_or_imp, Hex.mem_neighbors_iff hstart, ht,
      true_and]
    refine or_congr_right (exists_congr fun stop => and_congr_right fun hstop => ?_)
    rw [Hex.mem_neighbors_iff ((hreached stop).1 hstop).1]
    exact and_iff_right ht
  refine ⟨stops, (bordering (p.hex :: stops)).filter fun t => (m.mayAttack p t).holds id, hstops, ?_,
    (List.nodup_eraseDups _).filter _, fun t => ?_⟩
  · unfold attackHexes
    rw [hp]
    dsimp only
    rw [hstops]
    exact List.filterM_of_ok fun t _ => hmay t
  · have hallowed : (m.mayAttack p t).holds id = true ↔ m.mayAttack p t = .ok true := by
      rw [hmay t]
      exact ⟨congrArg Except.ok, Except.ok.inj⟩
    rw [List.mem_filter, hallowed, and_comm]
    refine and_congr_right fun hallowed => hborders t ?_
    obtain ⟨d, hd, -⟩ := of_mayAttack hallowed
    obtain ⟨hmem, rfl⟩ := Board.mem_of_pieceAt? hd
    exact hcells d hmem

/-- Where an object goes before it strikes at what it can attack: nowhere when it is next to it, and
to the first of its moves that is. -/
theorem stepBeforeAttack_of_reached {stops : List Hex} (hstops : m.movementHexes start = .ok stops)
    (h : start.adjacent target = true ∨ ∃ stop ∈ stops, stop.adjacent target = true) :
    start.adjacent target = true ∧ m.stepBeforeAttack start target = .ok none ∨
      ∃ step ∈ stops, step.adjacent target = true ∧
        m.stepBeforeAttack start target = .ok (some step) := by
  by_cases hnear : start.adjacent target = true
  · refine .inl ⟨hnear, ?_⟩
    rw [stepBeforeAttack, if_pos hnear]
  · obtain ⟨stop, hstop, hborders⟩ := h.resolve_left hnear
    have hsome : (stops.find? (·.adjacent target)).isSome = true :=
      List.find?_isSome.2 ⟨stop, hstop, hborders⟩
    obtain ⟨step, hstep⟩ := Option.isSome_iff_exists.1 hsome
    refine .inr ⟨step, List.mem_of_find?_eq_some hstep, by simpa using List.find?_some hstep, ?_⟩
    rw [stepBeforeAttack, if_neg hnear, hstops]
    exact congrArg Except.ok hstep

end Match

/-! ### Commands that go through -/

namespace Attempt
variable {run : Runner} {player : Color} {start goal target stand : Hex} {s s' : Stage}

theorem not_refused_ownPieceAt {hex : Hex} {p : Piece} {r : Rejection}
    (hp : s.game.board.pieceAt? hex = some p) (howner : p.owner = player) :
    (ownPieceAt player hex).run.run s ≠ .ok (.error r, s') := by
  intro h
  have hrest := of_run_look h
  rw [hp] at hrest
  dsimp only at hrest
  rw [if_pos howner] at hrest
  cases hrest

/-- A move to one of the cells that are offered is not refused. -/
theorem not_refused_movePiece {stops : List Hex} {p : Piece} {r : Rejection}
    (hp : s.game.board.pieceAt? start = some p) (howner : p.owner = player)
    (hstops : s.game.movementHexes start = .ok stops) (hgoal : goal ∈ stops) :
    (movePiece run player start goal).run.run s ≠ .ok (.error r, s') := by
  intro h
  obtain h | ⟨p, s₁, hown, hrest⟩ := rejected_of_bind h
  · exact not_refused_ownPieceAt hp howner h
  · obtain ⟨-, -, rfl⟩ := owned_of_run hown
    obtain h | ⟨moved, s₁, hwalk, hrest⟩ := rejected_of_bind hrest
    · exact Firm.lift _ _ _ _ h
    · have hmoved : moved = true := by
        have hwalk := of_run_lift hwalk
        rw [Play.run_walk, hstops] at hwalk
        dsimp only at hwalk
        rw [if_pos (List.contains_iff_mem.2 hgoal)] at hwalk
        split at hwalk
        · cases hwalk
          rfl
        · split at hwalk <;> cases hwalk
          rfl
      rw [hmoved] at hrest
      have hfirm : Firm (do
          change (·.animate (.move start goal))
          change (·.playSound "move.wav")
          Play.occur run (.ofPiece .afterMove p.id) (.command player) (Pure.pure ())) :=
        (Firm.change _).next fun _ => (Firm.change _).next fun _ => .lift _
      exact hfirm _ _ _ hrest

/-- An attack on one of the cells that are offered is not refused. -/
theorem not_refused_attackPiece {stops hexes : List Hex} {a : Piece} {r : Rejection}
    (ha : s.game.board.pieceAt? start = some a) (howner : a.owner = player)
    (hstops : s.game.movementHexes start = .ok stops)
    (hhexes : s.game.attackHexes start = .ok hexes) (htarget : target ∈ hexes)
    (hmay : s.game.mayAttack a target = .ok true)
    (hreached : start.adjacent target = true ∨ ∃ stop ∈ stops, stop.adjacent target = true) :
    (attackPiece run player start target).run.run s ≠ .ok (.error r, s') := by
  obtain ⟨d, hd, -⟩ := Match.of_mayAttack hmay
  intro h
  obtain h | ⟨a', s₁, hown, hrest⟩ := rejected_of_bind h
  · exact not_refused_ownPieceAt ha howner h
  · obtain ⟨-, -, rfl⟩ := owned_of_run hown
    have hrest := of_run_look hrest
    obtain h | ⟨hexes', s₁, hlift, hrest⟩ := rejected_of_bind hrest
    · exact Firm.lift _ _ _ _ h
    obtain ⟨heq, rfl⟩ := Play.of_run_lift (of_run_lift hlift)
    obtain rfl := Except.ok.inj (hhexes.symm.trans heq)
    rw [if_neg (by simpa using htarget), Board.idAt?, hd] at hrest
    dsimp only [Option.map_some] at hrest
    obtain h | ⟨step, s₁, hlift, hrest⟩ := rejected_of_bind hrest
    · exact Firm.lift _ _ _ _ h
    obtain ⟨hstep, rfl⟩ := Play.of_run_lift (of_run_lift hlift)
    obtain ⟨-, hnone⟩ | ⟨stand, hstand, -, hsome⟩ :=
      Match.stepBeforeAttack_of_reached hstops hreached
    · obtain rfl := Except.ok.inj (hnone.symm.trans hstep)
      exact firm_strike run player _ _ _ _ _ _ _ hrest
    · obtain rfl := Except.ok.inj (hsome.symm.trans hstep)
      obtain h | ⟨_, mid, -, hrest⟩ := rejected_of_bind hrest
      · exact not_refused_movePiece ha howner hstops hstand h
      · exact firm_strike run player _ _ _ _ _ _ _ hrest

/-! ### Combat -/

/-- Either there is no combat, or it is told of with both sides as they meet. -/
inductive Fights (attacker defender : PieceId) (s : Stage) : Stage → Prop where
  | parted {s' : Stage} : s.Aftermath s' → Fights attacker defender s s'
  | met {a d : Piece} {met s' : Stage} : Relation.ReflTransGen Inquiry s met →
    met.game.board.get? attacker = some a → met.game.board.get? defender = some d →
    Stage.Aftermath ⟨met.game, .combat a d :: met.trace⟩ s' → Fights attacker defender s s'

theorem aftermath_of_inquired {s s' : Stage} (h : Relation.ReflTransGen Inquiry s s') :
    s.Aftermath s' := .of_ripples (Relation.ReflTransGen.mono Inquiry.ripple _ _ h)

theorem Fights.animations {attacker defender : PieceId} (h : Fights attacker defender s s') :
    s'.game.animations = s.game.animations := by
  cases h with
  | parted h => exact h.animations
  | met hmet _ _ h => exact h.animations.trans (aftermath_of_inquired hmet).animations

/-- How hard the defender strikes back. -/
def retaliation (d : Piece) : Outcome Int :=
  if d.hasStatus .cannotFightBack then .ok 0 else d.attack

/-- The blow that the attacker takes, if it is there to take it. -/
def secondBlow (run : Runner) (attacker : PieceId) (amount : Int) (ctx : Context) : Play Unit := do
  if 0 < amount && (← Play.game).board.contains attacker then
    Play.dealDamage run attacker amount (some .combat) ctx

/-- Where both sides are there, how hard each strikes is settled before the first blow. -/
theorem blows_of_combat {attacker defender : PieceId} {a d : Piece} {ctx : Context}
    (ha : s.game.board.get? attacker = some a) (hd : s.game.board.get? defender = some d)
    (h : (combat run attacker defender ctx).run s = .ok ((), s')) :
    ∃ (attack back : Int) (mid : Stage), a.attack = .ok attack ∧ retaliation d = .ok back ∧
      (Play.dealDamage run defender attack (some .combat) ctx).run
        ⟨s.game, .combat a d :: s.trace⟩ = .ok ((), mid) ∧
      (secondBlow run attacker back ctx).run mid = .ok ((), s') := by
  have hrest := Play.of_run_piece? h
  rw [ha] at hrest
  obtain ⟨attack, s₁, hlift, hthen⟩ := Play.run_bind hrest
  obtain ⟨hattack, rfl⟩ := Play.of_run_lift hlift
  have hthen := Play.of_run_piece? hthen
  rw [hd] at hthen
  unfold retaliation
  dsimp only at hthen
  split at hthen
  · rename_i hmeek
    obtain ⟨_, s₂, hnone, hblows⟩ := Play.run_bind hthen
    cases hnone
    obtain ⟨_, s₂, hnote, hblows⟩ := Play.run_bind hblows
    cases hnote
    obtain ⟨_, mid, hfirst, hsecond⟩ := Play.run_bind hblows
    exact ⟨attack, 0, mid, hattack, if_pos hmeek, hfirst, hsecond⟩
  · rename_i hmeek
    obtain ⟨back, s₂, hlift, hblows⟩ := Play.run_bind hthen
    obtain ⟨hback, rfl⟩ := Play.of_run_lift hlift
    obtain ⟨_, s₃, hnote, hstruck⟩ := Play.run_bind hblows
    cases hnote
    obtain ⟨_, mid, hfirst, hsecond⟩ := Play.run_bind hstruck
    exact ⟨attack, back, mid, hattack, (if_neg hmeek).trans hback, hfirst, hsecond⟩

section Running

variable (hrun : run.Ripples)
include hrun

theorem ripples_secondBlow (attacker : PieceId) (amount : Int) (ctx : Context) :
    Play.Goes Ripple (secondBlow run attacker amount ctx) := by
  refine .look fun m => ?_
  split
  · exact Play.ripples_dealDamage hrun attacker amount _ ctx
  · exact .pure _

theorem fights_of_combat {attacker defender : PieceId} {ctx : Context}
    (h : (combat run attacker defender ctx).run s = .ok ((), s')) :
    Fights attacker defender s s' := by
  cases ha : s.game.board.get? attacker with
  | none =>
    have hrest := Play.of_run_piece? h
    rw [ha] at hrest
    cases hrest
    exact .parted (.refl _)
  | some a =>
    cases hd : s.game.board.get? defender with
    | none =>
      have hrest := Play.of_run_piece? h
      rw [ha] at hrest
      obtain ⟨attack, s₁, hlift, hthen⟩ := Play.run_bind hrest
      obtain ⟨-, rfl⟩ := Play.of_run_lift hlift
      have hthen := Play.of_run_piece? hthen
      rw [hd] at hthen
      have hblows : Play.Goes Ripple (do
          Play.dealDamage run defender attack (some .combat) ctx
          secondBlow run attacker 0 ctx) :=
        (Play.ripples_dealDamage hrun defender attack _ ctx).next fun _ =>
          ripples_secondBlow hrun attacker 0 ctx
      exact .parted (hblows.aftermath hthen)
    | some d =>
      obtain ⟨attack, back, mid, -, -, hfirst, hsecond⟩ := blows_of_combat ha hd h
      exact .met .refl ha hd (((Play.ripples_dealDamage hrun _ _ _ _).aftermath hfirst).trans
        ((ripples_secondBlow hrun _ _ _).aftermath hsecond))

/-- Whether there is combat is settled before anything else comes of the strike. -/
theorem fights_of_occur {attacker defender : PieceId} {o : Occurrence} {parent ctx : Context}
    (h : (Play.occur run o parent (combat run attacker defender ctx)).run s = .ok ((), s')) :
    Fights attacker defender s s' := by
  have hanswered : ∀ answers : List Answer, Play.Goes Ripple (answers.forM fun a =>
      run (o.context a.owner a.controller a.trigger parent.interactive) a.trigger.actions) :=
    fun answers => .forM fun a => hrun _ _
  have hrest := Play.of_run_look h
  obtain ⟨answers, met, hanswers, hrest⟩ := Play.run_bind hrest
  have hmet := Play.goes_answersOf o _ _ _ _ hanswers
  split at hrest
  · obtain ⟨_, s₂, hcombat, hrest⟩ := Play.run_bind hrest
    have hlater := (hanswered answers).aftermath hrest
    cases fights_of_combat hrun hcombat with
    | parted h => exact .parted ((aftermath_of_inquired hmet).trans (h.trans hlater))
    | met hmet' ha hd h => exact .met (hmet.trans hmet') ha hd (h.trans hlater)
  · exact .parted ((aftermath_of_inquired hmet).trans ((hanswered answers).aftermath hrest))

/-! ### What is shown -/

theorem Strikes.animations {attacker defender : PieceId}
    (h : Strikes run player attacker defender stand target s s') :
    s'.game.animations = s.game.animations ∨
      s'.game.animations = s.game.animations ++ [.attack stand target] := by
  cases h with
  | idle | vain => exact .inl rfl
  | blow h => exact .inr (fights_of_occur hrun h).animations

/-- Of a move nothing but itself is shown. -/
theorem animations_of_movePiece
    (h : (movePiece run player start goal).run.run s = .ok (.ok (), s')) :
    s'.game.animations = s.game.animations ++ [.move start goal] := by
  obtain ⟨p, walked, -, -, hwalked, hoccur⟩ := walk_of_movePiece h
  rw [((Play.ripples_announce hrun _ _).aftermath hoccur).animations, ← hwalked.animations]
  rfl

end Running
end Attempt

namespace Match
variable {m : Match} {start : Hex} {p : Piece} {left : Int}

/-- What can be attacked from a cell, with what an object that stands there can move to, and how an
attack goes. -/
structure Strikable (m : Match) (start : Hex) (p : Piece) (stops hexes : List Hex) : Prop where
  once : hexes.Nodup
  mem_iff : ∀ t, t ∈ hexes ↔ m.mayAttack p t = .ok true ∧
    (start.adjacent t = true ∨ ∃ stop ∈ stops, stop.adjacent t = true)
  step : ∀ t ∈ hexes, start.adjacent t = true ∧ m.stepBeforeAttack start t = .ok none ∨
    ∃ step ∈ stops, step.adjacent t = true ∧ m.stepBeforeAttack start t = .ok (some step)
  /-- An attack by the player of the object is not refused. -/
  accepted : ∀ (depth : Nat) (s s' : Stage) (r : Except Rejection Unit), ∀ t ∈ hexes, s.game = m →
    (Attempt.attackPiece (Play.runner depth) p.owner start t).run.run s = .ok (r, s') → r = .ok ()
  /-- Nothing is shown of an attack but a move that is offered and a strike at what is adjacent. -/
  shown : ∀ (depth : Nat) (player : Color) (t : Hex) (s s' : Stage), s.game = m →
    (Attempt.attackPiece (Play.runner depth) player start t).run.run s = .ok (.ok (), s') →
    ∃ news, s'.game.animations = m.animations ++ news ∧ ∀ a ∈ news,
      (∃ step ∈ stops, a = .move start step) ∨ ∃ stand, a = .attack stand t ∧ stand.distance t = 1

/-- What can be attacked and the step before an attack go together: each cell that is offered can be
struck from where the object stands or from one of its moves, and it is struck from there. -/
theorem attackHexes_exact (hcells : ∀ p ∈ m.board.pieces, p.hex ∈ Hex.all)
    (hp : m.board.pieceAt? start = some p) (hleft : p.movesLeft = .ok left)
    (hmay : ∀ t, ∃ b, m.mayAttack p t = .ok b) :
    ∃ stops hexes, m.movementHexes start = .ok stops ∧ m.attackHexes start = .ok hexes ∧
      m.Strikable start p stops hexes := by
  obtain ⟨stops, hexes, hstops, hhexes, honce, hmem⟩ := exists_attackHexes hcells hp hleft hmay
  refine ⟨stops, hexes, hstops, hhexes, honce, hmem, fun t ht => ?_, ?_, ?_⟩
  · exact stepBeforeAttack_of_reached hstops ((hmem t).1 ht).2
  · rintro depth s s' r t ht rfl h
    cases r with
    | ok => rfl
    | error r =>
      obtain ⟨hmay, hreached⟩ := (hmem t).1 ht
      exact absurd h (Attempt.not_refused_attackPiece hp rfl hstops hhexes ht hmay hreached)
  · rintro depth player t s s' rfl h
    have hrun := Play.ripples_runner depth
    obtain ⟨a, hexes', defender, stand, mid, ha, -, hhexes', ht, -, happroach, hstrikes⟩ :=
      Attempt.approached_of_attackPiece h
    obtain rfl := Except.ok.inj (hhexes.symm.trans hhexes')
    have hsteps := stepBeforeAttack_of_reached hstops ((hmem t).1 ht).2
    -- where the strike comes from, and what has been shown by then
    obtain ⟨before, hbefore, hmoves, hstand⟩ : ∃ before,
        mid.game.animations = s.game.animations ++ before ∧
        (∀ a ∈ before, ∃ step ∈ stops, a = .move start step) ∧ stand.distance t = 1 := by
      cases happroach with
      | near hnone =>
        obtain ⟨hnear, -⟩ | ⟨step, -, -, hsome⟩ := hsteps
        · exact ⟨[], (List.append_nil _).symm, List.forall_mem_nil _, eq_of_beq hnear⟩
        · cases hnone.symm.trans hsome
      | afar hstep hmove =>
        obtain ⟨-, hnone⟩ | ⟨step, hin, hnear, hsome⟩ := hsteps
        · cases hnone.symm.trans hstep
        · cases hstep.symm.trans hsome
          exact ⟨_, Attempt.animations_of_movePiece hrun hmove,
            List.forall_mem_singleton.2 ⟨_, hin, rfl⟩, eq_of_beq hnear⟩
    obtain hsilent | hshown := hstrikes.animations hrun
    · exact ⟨before, hsilent.trans hbefore, fun a ha => .inl (hmoves a ha)⟩
    · refine ⟨before ++ [.attack stand t], ?_, List.forall_mem_append.2
        ⟨fun a ha => .inl (hmoves a ha), List.forall_mem_singleton.2 (.inr ⟨stand, rfl, hstand⟩)⟩⟩
      rw [hshown, hbefore, List.append_assoc]

/-- A robot with a structure of its own in the way, and a structure of orange's behind that. More
may be done before the robot may act. -/
def siege (orders : List Action) : MatchSetup := .solo ([.making .robot ⟨some 1, 1, some 3⟩,
  .making .building ⟨none, 1, none⟩,
  .spawnPiece (.generateCard .building ⟨none, 1, none⟩ none) (.tilesMatching [.unoccupied])
    .opponent] ++ orders ++ [.moveAndAttackAgain (.piecesInPlay (.only .robot))])

/-- The robot can attack orange's structure alone, and goes round its own to do so. -/
theorem attackHexes_exact_siege : ∃ (m : Match) (p : Piece) (stops hexes : List Hex),
    (∀ q ∈ m.board.pieces, q.hex ∈ Hex.all) ∧ m.board.pieceAt? (.axial (-3) 1) = some p ∧
    p.movesLeft = .ok 3 ∧ (∀ t, ∃ b, m.mayAttack p t = .ok b) ∧
    m.movementHexes (.axial (-3) 1) = .ok stops ∧ m.attackHexes (.axial (-3) 1) = .ok hexes ∧
    hexes = [.axial (-3) 3] ∧ Hex.adjacent (.axial (-3) 1) (.axial (-3) 3) = false ∧
    m.Strikable (.axial (-3) 1) p stops hexes := by
  have hrun : ((siege []).start.holds fun m => (m.submitTraced maxDepth .playSolo).holds fun x =>
      (x.1.board.pieces.all fun q => Hex.all.contains q.hex) &&
      ((x.1.board.pieceAt? (.axial (-3) 1)).any fun p =>
        p.movesLeft.holds (· == 3) && p.attack.holds fun _ => true) &&
      (x.1.attackHexes (.axial (-3) 1)).holds (· == [.axial (-3) 3])) = true := by
    decide +kernel
  obtain ⟨_, -, hrun⟩ := Outcome.exists_of_holds hrun
  obtain ⟨⟨m, _⟩, -, hrun⟩ := Outcome.exists_of_holds hrun
  simp only [Bool.and_eq_true, List.all_eq_true, List.contains_iff_mem] at hrun
  obtain ⟨⟨hcells, hrobot⟩, htarget⟩ := hrun
  obtain ⟨p, hp, hnumbers⟩ := (Option.any_eq_true _ _).1 hrobot
  obtain ⟨hleft, hattack⟩ := Bool.and_eq_true_iff.1 hnumbers
  obtain ⟨_, hleft, heq⟩ := Outcome.exists_of_holds hleft
  obtain rfl := eq_of_beq heq
  obtain ⟨attack, hattack, -⟩ := Outcome.exists_of_holds hattack
  obtain ⟨stops, hexes, hstops, hhexes, hstrikable⟩ :=
    attackHexes_exact hcells hp hleft (exists_mayAttack hattack)
  obtain ⟨_, htarget, heq⟩ := Outcome.exists_of_holds htarget
  obtain rfl := Except.ok.inj (hhexes.symm.trans htarget)
  exact ⟨m, p, stops, hexes, hcells, hp, hleft, exists_mayAttack hattack, hstops, hhexes,
    eq_of_beq heq, by decide, hstrikable⟩

end Match
end HexDuel
