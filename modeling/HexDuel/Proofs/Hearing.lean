import HexDuel.Proofs.Exchange
import HexDuel.Proofs.Fits

/-!
Who hears an event. Before anything is done about it all enabled triggers for it are asked in turn,
and one hears it when it asks for such an event and listens to what the event happened to. The main
statement is about the two events of a blow: its cause is told with the destruction and not with the
damage, so that who waits for damage of some cause waits in vain.
-/

set_option autoImplicit false

namespace HexDuel

/-! ### The roll -/

/-- The enabled triggers of that object for the event. -/
def Board.listed (b : Board) (event : EventType) (id : PieceId) : List Answer :=
  match b.get? id with
  | none => []
  | some p =>
    (p.triggers.filter fun t => !t.disabled && t.spec.event == event).map (⟨id, p.owner, ·⟩)

/-- All enabled triggers for the event, in the order of the objects. -/
def Board.roll (b : Board) (event : EventType) : List Answer := b.ids.flatMap (b.listed event)

theorem Board.mem_roll_iff {b : Board} {event : EventType} {a : Answer} :
    a ∈ b.roll event ↔ ∃ p, b.get? a.owner = some p ∧ a.controller = p.owner ∧
      a.trigger ∈ p.triggers ∧ a.trigger.disabled = false ∧ a.trigger.spec.event = event := by
  have hlisted : ∀ id, a ∈ b.listed event id ↔ id = a.owner ∧ ∃ p, b.get? id = some p ∧
      a.controller = p.owner ∧ a.trigger ∈ p.triggers ∧ a.trigger.disabled = false ∧
        a.trigger.spec.event = event := by
    intro id
    unfold listed
    cases hp : b.get? id with
    | none => simp
    | some p =>
      simp only [List.mem_map, List.mem_filter, Bool.and_eq_true, Bool.not_eq_true', beq_iff_eq]
      constructor
      · rintro ⟨t, ⟨hmem, henabled, hevent⟩, rfl⟩
        exact ⟨rfl, p, rfl, rfl, hmem, henabled, hevent⟩
      · rintro ⟨rfl, q, hq, hcontroller, hmem, henabled, hevent⟩
        obtain rfl := Option.some.inj hq
        exact ⟨a.trigger, ⟨hmem, henabled, hevent⟩, hcontroller ▸ rfl⟩
  simp only [roll, List.mem_flatMap, hlisted]
  constructor
  · rintro ⟨_, -, rfl, h⟩
    exact h
  · rintro ⟨p, hp, h⟩
    exact ⟨a.owner, List.mem_map.2 ⟨_, mem_of_get? hp, rfl⟩, rfl, p, hp, h⟩

/-! ### The roll call -/

/-- A trigger that is asked about an event: the stage at which it is, and whether it hears it. -/
structure Hearing where
  answer : Answer
  stage : Stage
  heard : Bool

/-- The object is among what the trigger listens to at that stage. -/
def Answer.Listens (a : Answer) (id : PieceId) (s : Stage) : Prop :=
  ∃ listeners s', ((Resolving.resolve a.trigger.spec.targets).run' (.forPiece s.game a.owner)).run s =
    .ok (listeners, s') ∧ listeners.hasPiece id = true

namespace Play
variable {o : Occurrence} {s s' : Stage} {id : PieceId}

/-- The triggers are asked about the event in turn. -/
inductive RollCall (o : Occurrence) : Stage → List Hearing → Stage → Prop where
  | nil (s : Stage) : RollCall o s [] s
  | cons {a : Answer} {s s₁ s' : Stage} {heard : Bool} {rest : List Hearing} :
    (hears o a.owner a.trigger).run s = .ok (heard, s₁) → RollCall o s₁ rest s' →
    RollCall o s (⟨a, s, heard⟩ :: rest) s'

theorem RollCall.append {first rest : List Hearing} {mid : Stage} (h : RollCall o s first mid)
    (h' : RollCall o mid rest s') : RollCall o s (first ++ rest) s' := by
  induction h with
  | nil => exact h'
  | cons hhears _ ih => exact .cons hhears (ih h')

theorem heard_iff_of_hears (ho : o.piece = some id) {a : Answer} {heard : Bool}
    (h : (hears o a.owner a.trigger).run s = .ok (heard, s')) :
    heard = true ↔ o.fits a.trigger.spec = true ∧ a.Listens id s := by
  unfold hears at h
  split at h
  · rename_i hfits
    have hrest := of_run_look h
    obtain ⟨listeners, s₂, hresolve, hlast⟩ := run_bind hrest
    cases hlast
    have hheard : o.isHeardBy listeners = listeners.hasPiece id := by
      simp only [Occurrence.isHeardBy, ho]
    rw [hheard]
    refine ⟨fun hlistens => ⟨hfits, listeners, _, hresolve, hlistens⟩, ?_⟩
    rintro ⟨-, listeners', _, hresolve', hlistens⟩
    cases hresolve.symm.trans hresolve'
    exact hlistens
  · rename_i hfits
    cases h
    exact ⟨fun hheard => (nomatch hheard), fun ⟨hfits', _⟩ => absurd hfits' hfits⟩

theorem RollCall.heard_iff (ho : o.piece = some id) {hearings : List Hearing}
    (h : RollCall o s hearings s') : ∀ x ∈ hearings,
      (x.heard = true ↔ o.fits x.answer.trigger.spec = true ∧ x.answer.Listens id x.stage) := by
  induction h with
  | nil => exact fun _ hx => nomatch hx
  | cons hhears _ ih => exact List.forall_mem_cons.2 ⟨heard_iff_of_hears ho hhears, ih⟩

/-- Who answers is who heard it. -/
theorem rollCall_of_answersAmong {owner : PieceId} {controller : Color} {ts : List Trigger}
    {answers : List Answer} (h : (answersAmong o owner controller ts).run s = .ok (answers, s')) :
    ∃ hearings, RollCall o s hearings s' ∧ hearings.map (·.answer) = ts.map (⟨owner, controller, ·⟩) ∧
      answers = (hearings.filter (·.heard)).map (·.answer) := by
  induction ts generalizing s answers with
  | nil =>
    cases h
    exact ⟨[], .nil _, rfl, rfl⟩
  | cons t ts ih =>
    obtain ⟨heard, s₁, hhears, hthen⟩ := run_bind h
    obtain ⟨rest, s₂, hothers, hlast⟩ := run_bind hthen
    cases hlast
    obtain ⟨hearings, hcall, hall, rfl⟩ := ih hothers
    refine ⟨⟨⟨owner, controller, t⟩, s, heard⟩ :: hearings, .cons hhears hcall, ?_, ?_⟩
    · simp [hall]
    · cases heard <;> rfl

/-- Asking leaves the board alone, so that the roll is that of the start. -/
theorem rollCall_of_answersOf {ids : List PieceId} {answers : List Answer}
    (h : (answersOf o ids).run s = .ok (answers, s')) :
    ∃ hearings, RollCall o s hearings s' ∧
      hearings.map (·.answer) = ids.flatMap (s.game.board.listed o.event) ∧
      answers = (hearings.filter (·.heard)).map (·.answer) := by
  induction ids generalizing s answers with
  | nil =>
    cases h
    exact ⟨[], .nil _, rfl, rfl⟩
  | cons id ids ih =>
    have hrest := of_run_piece? h
    -- what the first object adds to the roll, whether or not it is still on the board
    have hfirst : ∃ found mid hearings, RollCall o s hearings mid ∧
        hearings.map (·.answer) = s.game.board.listed o.event id ∧
        found = (hearings.filter (·.heard)).map (·.answer) ∧
        mid.game.board = s.game.board ∧
        (do return found ++ (← answersOf o ids) : Play _).run mid = .ok (answers, s') := by
      unfold Board.listed
      cases hp : s.game.board.get? id with
      | none =>
        rw [hp] at hrest
        exact ⟨[], s, [], .nil s, rfl, rfl, rfl, hrest⟩
      | some p =>
        rw [hp] at hrest
        obtain ⟨found, mid, hfound, hrest⟩ := run_bind hrest
        obtain ⟨hearings, hcall, hall, hheard⟩ := rollCall_of_answersAmong hfound
        exact ⟨found, mid, hearings, hcall, hall, hheard,
          board_of_inquired (goes_answersAmong _ _ _ _ _ _ _ hfound), hrest⟩
    obtain ⟨found, mid, first, hcall, hall, rfl, hboard, hrest⟩ := hfirst
    obtain ⟨others, s₂, hothers, hlast⟩ := run_bind hrest
    cases hlast
    obtain ⟨rest, hcall', hall', rfl⟩ := ih hothers
    refine ⟨first ++ rest, hcall.append hcall', ?_, ?_⟩
    · rw [List.map_append, hall, hall', hboard, List.flatMap_cons]
    · rw [List.filter_append, List.map_append]

end Play

/-! ### Causes -/

/-- Once all have been asked, those have heard the event that have no type to ask for, ask for such a
cause and listen to the object; and all who might have were asked. -/
def Stage.Heeds (s : Stage) (o : Occurrence) (id : PieceId) (causes : Cause → Prop) : Prop :=
  ∀ answers asked, (Play.answersOf o s.game.board.ids).run s = .ok (answers, asked) →
    ∃ hearings, Play.RollCall o s hearings asked ∧
      hearings.map (·.answer) = s.game.board.roll o.event ∧
      answers = (hearings.filter (·.heard)).map (·.answer) ∧
      ∀ x ∈ hearings, (x.heard = true ↔ x.answer.trigger.spec.types = none ∧
        causes x.answer.trigger.spec.cause ∧ x.answer.Listens id x.stage)

/-- An event without a card type is of no type that could be asked for. -/
theorem Occurrence.fits_iff {o : Occurrence} (htype : o.type = none) (spec : TriggerSpec) :
    o.fits spec = true ↔
      spec.types = none ∧ (spec.cause = .anyEvent ∨ o.cause = some spec.cause) := by
  have hcause : (spec.cause == .anyEvent || some spec.cause == o.cause) = true ↔
      spec.cause = .anyEvent ∨ o.cause = some spec.cause := by
    rw [Bool.or_eq_true, beq_iff_eq, beq_iff_eq, eq_comm (a := some spec.cause)]
  unfold fits
  rw [Bool.and_eq_true, hcause, htype]
  cases spec.types <;> simp

theorem Stage.heeds {o : Occurrence} {id : PieceId} (ho : o.piece = some id) (htype : o.type = none)
    (s : Stage) : s.Heeds o id fun c => c = .anyEvent ∨ o.cause = some c := by
  intro answers asked h
  obtain ⟨hearings, hcall, hall, hheard⟩ := Play.rollCall_of_answersOf h
  refine ⟨hearings, hcall, hall, hheard, fun x hx => ?_⟩
  rw [hcall.heard_iff ho x hx, Occurrence.fits_iff htype, and_assoc]

namespace Play
variable {run : Runner} {s : Stage} {id : PieceId} {p : Piece}

theorem run_piece?_bind (hp : s.game.board.get? id = some p) {α : Type}
    (k : Option Piece → Play α) : (piece? id >>= k).run s = (k (some p)).run s := by
  have hpiece : (piece? id).run s = .ok (some p, s) := congrArg (fun q => Except.ok (q, s)) hp
  rw [StateT.run_bind, hpiece]
  rfl

theorem run_lift_bind {α β : Type} {x : Outcome α} {a : α} (h : x = .ok a) (k : α → Play β) :
    ((liftM x : Play α) >>= k).run s = (k a).run s := by
  subst h
  rfl

/-- A blow raises the event of the damage and may then raise that of the destruction. -/
theorem dealDamage_raises (hp : s.game.board.get? id = some p) (hstanding : p.falling = false)
    {amount : Int} (hfits : Fits32 (p.stats.health - max amount 0)) (cause : Option Cause)
    (ctx : Context) :
    (dealDamage run id amount cause ctx).run s = (do
      occur run (.ofPiece .afterDamageReceived id) ctx (pure ())
      destroyIfDoomed run id cause ctx).run (s.wound id p amount) := by
  unfold dealDamage
  rw [run_piece?_bind hp]
  simp only [hstanding, Bool.not_false, if_true]
  rw [run_lift_bind (Outcome.int32_eq_ok_iff.2 ⟨rfl, hfits⟩)]
  rfl

/-- What is left to do once the fall of the object has been announced. -/
def layToRest (id : PieceId) : Play Unit := do
  match ← removePiece id with
  | some p => change (·.discard p.owner p.card.reset)
  | none => pure ()
  reapply

theorem destroyIfDoomed_raises (hp : s.game.board.get? id = some p) (hstanding : p.falling = false)
    (hdoomed : p.isDoomed = .ok true) (cause : Option Cause) (ctx : Context) :
    (destroyIfDoomed run id cause ctx).run s = (do
      occur run ((Occurrence.ofPiece .afterDestroyed id).withCause cause) ctx (pure ())
      layToRest id).run (s.topple id p.card) := by
  unfold destroyIfDoomed
  rw [run_piece?_bind hp]
  dsimp only
  rw [run_lift_bind hdoomed]
  simp only [hstanding, Bool.not_false, Bool.and_self, if_true]
  rfl

end Play

/-- The cause of both blows of a combat is combat. -/
theorem Attempt.combat_strikes {run : Runner} {s : Stage} {attacker defender : PieceId}
    {a d : Piece} (ha : s.game.board.get? attacker = some a)
    (hd : s.game.board.get? defender = some d) {attack back : Int} (hattack : a.attack = .ok attack)
    (hback : retaliation d = .ok back) (ctx : Context) :
    (combat run attacker defender ctx).run s = (do
      Play.dealDamage run defender attack (some .combat) ctx
      secondBlow run attacker back ctx).run ⟨s.game, .combat a d :: s.trace⟩ := by
  unfold combat
  rw [Play.run_piece?_bind ha]
  dsimp only
  rw [Play.run_lift_bind hattack, Play.run_piece?_bind hd]
  unfold retaliation at hback
  dsimp only
  split at hback
  · rename_i hstatus
    obtain rfl := Except.ok.inj hback
    rw [if_pos hstatus]
    rfl
  · rename_i hstatus
    rw [if_neg hstatus, Play.run_lift_bind hback]
    rfl

namespace Play
variable {run : Runner} {s : Stage} {id : PieceId} {p : Piece}

/-- A blow raises two events. The damage is announced without a cause: of those that listen to the
object, only who asks for any event whatever hears it. The destruction is announced with the cause
of the blow, and who asks for that hears it, too. So it is with both blows of a combat. -/
theorem blow_heeded (hp : s.game.board.get? id = some p) (hstanding : p.falling = false)
    (amount : Int) (cause : Option Cause) (ctx : Context) :
    (Fits32 (p.stats.health - max amount 0) → (dealDamage run id amount cause ctx).run s = (do
      occur run (.ofPiece .afterDamageReceived id) ctx (pure ())
      destroyIfDoomed run id cause ctx).run (s.wound id p amount)) ∧
    (s.wound id p amount).Heeds (.ofPiece .afterDamageReceived id) id (· = .anyEvent) ∧
    (p.isDoomed = .ok true → (destroyIfDoomed run id cause ctx).run s = (do
      occur run ((Occurrence.ofPiece .afterDestroyed id).withCause cause) ctx (pure ())
      layToRest id).run (s.topple id p.card)) ∧
    (s.topple id p.card).Heeds ((Occurrence.ofPiece .afterDestroyed id).withCause cause) id
      (fun c => c = .anyEvent ∨ cause = some c) ∧
    ∀ (other : PieceId) (a : Piece) (attack back : Int), s.game.board.get? other = some a →
      a.attack = .ok attack → Attempt.retaliation p = .ok back →
      (Attempt.combat run other id ctx).run s = (do
        dealDamage run id attack (some .combat) ctx
        Attempt.secondBlow run other back ctx).run ⟨s.game, .combat a p :: s.trace⟩ := by
  refine ⟨fun hfits => dealDamage_raises hp hstanding hfits cause ctx, ?_,
    fun hdoomed => destroyIfDoomed_raises hp hstanding hdoomed cause ctx,
    Stage.heeds rfl rfl _,
    fun other a attack back ha hattack hback => Attempt.combat_strikes ha hp hattack hback ctx⟩
  intro answers asked h
  obtain ⟨hearings, hcall, hall, hheard, hiff⟩ := Stage.heeds rfl rfl _ answers asked h
  refine ⟨hearings, hcall, hall, hheard, fun x hx => (hiff x hx).trans ?_⟩
  simp [Occurrence.ofPiece]

theorem get?_wound (hp : s.game.board.get? id = some p) (amount : Int) :
    (s.wound id p amount).game.board.get? id = some (p.wounded amount) :=
  (Board.get?_modify_self _ _ _).trans (congrArg (Option.map _) hp)

/-- A trigger of an object that is on the board listens to the object. -/
theorem listens_thisPiece {a : Answer} (h : a.trigger.spec.targets = .thisPiece)
    (hthere : s.game.board.contains a.owner = true) : a.Listens a.owner s := by
  have hresolve : ((Resolving.resolve a.trigger.spec.targets).run'
      (.forPiece s.game a.owner)).run s =
        .ok (.ofSalient s.game (some (.piece a.owner)), s) := by
    rw [h]
    rfl
  refine ⟨_, _, hresolve, ?_⟩
  simp [Collection.ofSalient, hthere, Collection.hasPiece]

/-- A trigger on what combat does to its own object. -/
def isAvenger (event : EventType) (t : Trigger) : Bool :=
  match t.spec with
  | ⟨e, .thisPiece, .combat, none⟩ => e == event && !t.disabled
  | _ => false

theorem spec_of_isAvenger {event : EventType} {t : Trigger} (h : isAvenger event t = true) :
    t.spec = ⟨event, .thisPiece, .combat, none⟩ ∧ t.disabled = false := by
  unfold isAvenger at h
  split at h
  · rename_i e hspec
    simp only [Bool.and_eq_true, beq_iff_eq, Bool.not_eq_true'] at h
    exact ⟨h.1 ▸ hspec, h.2⟩
  · cases h

/-- Blue's robot faces one of orange's. Both avenge what combat does to them. -/
def avengers : MatchSetup := .solo [.making .robot ⟨some 3, 9, some 1⟩,
  .spawnPiece (.generateCard .robot ⟨some 2, 9, some 1⟩ none) (.tilesMatching [.unoccupied])
    .opponent,
  .giveAbility (.piecesInPlay (.only .robot)) (.setTrigger ⟨⟨.afterDamageReceived, .thisPiece,
    .combat, none⟩, [.dealDamage .opponent (.const 2)], false, none⟩) none,
  .giveAbility (.piecesInPlay (.only .robot)) (.setTrigger ⟨⟨.afterDestroyed, .thisPiece,
    .combat, none⟩, [.dealDamage .opponent (.const 2)], false, none⟩) none]

/-- Where they meet, orange's robot listens to what is done to it. Nobody answers when it is hit, and
one trigger does when it falls. Combat comes to its end although whatever answered would fail. -/
theorem avengers_meet : ∃ (s asked asked' s' : Stage) (p : Piece) (t : Trigger) (x : Answer),
    s.game.board.get? 6 = some p ∧ p.falling = false ∧ t ∈ p.triggers ∧
    t.spec = ⟨.afterDamageReceived, .thisPiece, .combat, none⟩ ∧ t.disabled = false ∧
    (answersOf (.ofPiece .afterDamageReceived 6) s.game.board.ids).run (s.wound 6 p 3) =
      .ok ([], asked) ∧
    (answersOf ((Occurrence.ofPiece .afterDestroyed 6).withCause (some .combat))
      s.game.board.ids).run (s.topple 6 p.card) = .ok ([x], asked') ∧
    x.trigger.spec = ⟨.afterDestroyed, .thisPiece, .combat, none⟩ ∧
    (Attempt.combat (fun _ _ => throw .exhausted) 4 6 (.command .blue)).run s = .ok ((), s') := by
  have hrun : (avengers.start.holds fun m =>
      (m.submitTraced Match.maxDepth .playSolo).holds fun y =>
      ((y.1.board.get? 6).any fun p => !p.falling &&
        p.triggers.any (isAvenger .afterDamageReceived) &&
        ((answersOf (.ofPiece .afterDamageReceived 6) y.1.board.ids).run
          (Stage.wound ⟨y.1, []⟩ 6 p 3)).holds (·.1.isEmpty) &&
        ((answersOf ((Occurrence.ofPiece .afterDestroyed 6).withCause (some .combat))
          y.1.board.ids).run (Stage.topple ⟨y.1, []⟩ 6 p.card)).holds fun z =>
            z.1.length == 1 && z.1.all (isAvenger .afterDestroyed ·.trigger)) &&
      ((Attempt.combat (fun _ _ => throw .exhausted) 4 6 (.command .blue)).run ⟨y.1, []⟩).holds
        fun _ => true) = true := by
    decide +kernel
  obtain ⟨_, -, hrun⟩ := Outcome.exists_of_holds hrun
  obtain ⟨⟨m, _⟩, -, hrun⟩ := Outcome.exists_of_holds hrun
  obtain ⟨hpiece, hcombat⟩ := Bool.and_eq_true_iff.1 hrun
  obtain ⟨p, hp, hrun⟩ := (Option.any_eq_true _ _).1 hpiece
  simp only [Bool.and_eq_true, Bool.not_eq_true'] at hrun
  obtain ⟨⟨⟨hstanding, htrigger⟩, hhit⟩, hfall⟩ := hrun
  obtain ⟨t, ht, havenger⟩ := List.any_eq_true.1 htrigger
  obtain ⟨hspec, henabled⟩ := spec_of_isAvenger havenger
  obtain ⟨⟨answers, asked⟩, hhit, hnone⟩ := Outcome.exists_of_holds hhit
  obtain rfl := List.isEmpty_iff.1 hnone
  obtain ⟨⟨answers, asked'⟩, hfall, hone⟩ := Outcome.exists_of_holds hfall
  obtain ⟨hlength, hall⟩ := Bool.and_eq_true_iff.1 hone
  obtain ⟨x, rfl⟩ := List.length_eq_one_iff.1 (eq_of_beq hlength)
  obtain ⟨hspec', -⟩ := spec_of_isAvenger (List.all_eq_true.1 hall x List.mem_cons_self)
  obtain ⟨⟨_, s'⟩, hcombat, -⟩ := Outcome.exists_of_holds hcombat
  exact ⟨⟨m, []⟩, asked, asked', s', p, t, x, hp, hstanding, ht, hspec, henabled, hhit, hfall,
    hspec', hcombat⟩

theorem blow_heeded_avengers : ∃ (s asked asked' : Stage) (p : Piece) (hits falls : List Hearing),
    s.game.board.get? 6 = some p ∧ p.falling = false ∧
    RollCall (.ofPiece .afterDamageReceived 6) (s.wound 6 p 3) hits asked ∧
    (∀ x ∈ hits, x.heard = false) ∧
    (∃ x ∈ hits, x.answer.trigger.spec = ⟨.afterDamageReceived, .thisPiece, .combat, none⟩) ∧
    RollCall ((Occurrence.ofPiece .afterDestroyed 6).withCause (some .combat))
      (s.topple 6 p.card) falls asked' ∧
    ∃ x ∈ falls, x.heard = true ∧ x.answer.Listens 6 x.stage ∧
      x.answer.trigger.spec = ⟨.afterDestroyed, .thisPiece, .combat, none⟩ := by
  obtain ⟨s, asked, asked', -, p, t, a, hp, hstanding, ht, hspec, henabled, hhit, hfall, hspec',
    -⟩ := avengers_meet
  obtain ⟨-, hdamage, -, hdestruction, -⟩ :=
    @blow_heeded (fun _ _ => pure ()) s 6 p hp hstanding 3 (some .combat) (.command .blue)
  have hids : ∀ f, (s.game.changePiece 6 f).board.ids = s.game.board.ids :=
    fun f => Board.ids_modify _ _ _
  obtain ⟨hits, hcall, hroll, hnone, -⟩ := hdamage [] asked ((hids _).symm ▸ hhit)
  obtain ⟨falls, hcall', -, hone, hiff⟩ := hdestruction [a] asked' ((hids _).symm ▸ hfall)
  refine ⟨s, asked, asked', p, hits, falls, hp, hstanding, hcall, fun x hx => ?_, ?_, hcall', ?_⟩
  · have hunheard := List.filter_eq_nil_iff.1 (List.map_eq_nil_iff.1 hnone.symm) x hx
    simpa using hunheard
  · have hmem : (⟨6, p.owner, t⟩ : Answer) ∈ hits.map (·.answer) := by
      rw [hroll]
      exact Board.mem_roll_iff.2 ⟨_, get?_wound hp 3, rfl, ht, henabled, congrArg _ hspec⟩
    obtain ⟨x, hx, heq⟩ := List.mem_map.1 hmem
    exact ⟨x, hx, by rw [heq]; exact hspec⟩
  · have hmem : a ∈ (falls.filter (·.heard)).map (·.answer) := hone ▸ List.mem_singleton_self a
    obtain ⟨x, hx, rfl⟩ := List.mem_map.1 hmem
    obtain ⟨hx, hheard⟩ := List.mem_filter.1 hx
    exact ⟨x, hx, hheard, ((hiff x hx).1 hheard).2.2, hspec'⟩

/-- Though it listens and asks for combat, it does not hear that combat has hit it. -/
theorem combat_unheard_avengers : ∃ (s asked s' : Stage) (p : Piece) (t : Trigger),
    s.game.board.get? 6 = some p ∧ p.falling = false ∧ t ∈ p.triggers ∧ t.disabled = false ∧
    t.spec = ⟨.afterDamageReceived, .thisPiece, .combat, none⟩ ∧
    Answer.Listens ⟨6, p.owner, t⟩ 6 (s.wound 6 p 3) ∧
    (answersOf (.ofPiece .afterDamageReceived 6) s.game.board.ids).run (s.wound 6 p 3) =
      .ok ([], asked) ∧
    (Attempt.combat (fun _ _ => throw .exhausted) 4 6 (.command .blue)).run s = .ok ((), s') := by
  obtain ⟨s, asked, -, s', p, t, -, hp, hstanding, ht, hspec, henabled, hhit, -, -, hcombat⟩ :=
    avengers_meet
  refine ⟨s, asked, s', p, t, hp, hstanding, ht, henabled, hspec, ?_, hhit, hcombat⟩
  refine listens_thisPiece (a := ⟨6, p.owner, t⟩) (congrArg TriggerSpec.targets hspec) ?_
  rw [Board.contains, get?_wound hp 3]
  rfl

end Play
end HexDuel
