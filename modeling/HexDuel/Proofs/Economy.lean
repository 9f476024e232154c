import HexDuel.Proofs.Strides

/-!
What an object may do in a turn. Who comes to the board or changes sides waits for the next turn of
its player, who has attacked neither moves nor attacks again before that, and who has activated an
ability does nothing more. The order in which all of this happens is kept in annals, beside what is
told: no command is carried out that the annals deny to the object it is asked of.
-/

set_option autoImplicit false

namespace HexDuel

/-! ### What is denied -/

/-- A turn of its player begins for the object. -/
def Event.Rouses (id : PieceId) : Event → Prop
  | .began c b => ∃ p, b.get? id = some p ∧ p.owner = c
  | _ => False

/-- The object has to wait from then on before it does that. -/
def Event.Denies (id : PieceId) (x : Exertion) : Event → Prop
  | .joined k => k = id
  | .did k y => k = id ∧ y.costs x = true
  | .began .. => False

/-- The object has to wait: since it had to, no turn of its player has begun. -/
inductive Denied (id : PieceId) (x : Exertion) : List Event → Prop where
  | now {e : Event} {past : List Event} : e.Denies id x → Denied id x (e :: past)
  | still {e : Event} {past : List Event} : ¬ e.Rouses id → Denied id x past →
    Denied id x (e :: past)

theorem denied_cons {id : PieceId} {x : Exertion} {e : Event} {past : List Event} :
    Denied id x (e :: past) ↔ e.Denies id x ∨ ¬ e.Rouses id ∧ Denied id x past := by
  constructor
  · intro h
    cases h with
    | now h => exact .inl h
    | still hsleeps h => exact .inr ⟨hsleeps, h⟩
  · rintro (h | ⟨hsleeps, h⟩)
    · exact .now h
    · exact .still hsleeps h

/-- Who has to wait is marked so, and nobody else is. -/
def Match.Heeds (m : Match) (past : List Event) : Prop :=
  ∀ id p x, m.board.get? id = some p → (p.bars x = true ↔ Denied id x past)

variable {s s' : Stage} {past events : List Event}

theorem Stage.GoesOn.heeds (h : s.GoesOn s') (hnone : pardons s'.trace = false)
    (hs : s.game.Heeds past) : s'.game.Heeds past := by
  intro id q x hq
  obtain ⟨p, hp, hgoes⟩ := h id q hq
  rw [hgoes.bars hnone]
  exact hs id p x hp

theorem Stage.Joins.heeds {id : PieceId} (h : s.Joins id s') (hnone : pardons s'.trace = false)
    (hs : s.game.Heeds past) : s'.game.Heeds (.joined id :: past) := by
  intro k q x hq
  rw [denied_cons]
  obtain ⟨rfl, hbars⟩ | ⟨hne, p, hp, hgoes⟩ := h k q hq
  · exact ⟨fun _ => .inl rfl, fun _ => hbars x⟩
  · rw [hgoes.bars hnone, hs k p x hp]
    exact ⟨fun h => .inr ⟨fun h => h, h⟩, fun h => h.elim (absurd · hne.symm) And.right⟩

theorem Stage.Does.heeds {id : PieceId} {x : Exertion} (h : s.Does id x s')
    (hnone : pardons s'.trace = false) (hs : s.game.Heeds past) :
    s'.game.Heeds (.did id x :: past) := by
  intro k q y hq
  obtain ⟨p, hp, -, hbars⟩ := h k q hq
  rw [denied_cons, hbars hnone, Bool.or_eq_true, Bool.and_eq_true, beq_iff_eq, hs k p y hp]
  exact or_congr (and_congr_left' eq_comm) ⟨fun h => ⟨fun h => h, h⟩, And.right⟩

theorem Piece.beginTurnOf_of_ne {p : Piece} {c : Color} (h : p.owner ≠ c) :
    p.beginTurnOf c = p := by
  unfold beginTurnOf
  rw [if_neg (by simpa using h)]

theorem Piece.bars_beginTurnOf (p : Piece) (x : Exertion) :
    (p.beginTurnOf p.owner).bars x = false := by
  unfold beginTurnOf
  rw [if_pos (beq_self_eq_true p.owner)]
  cases x <;> rfl

/-- The objects of the player have nothing to wait for any more. -/
theorem Stage.heeds_beginTurn (s : Stage) (total : Int) (hs : s.game.Heeds past) :
    (s.beginTurn total).game.Heeds (.began s.game.turn s.game.board :: past) := by
  intro id q x hq
  have hget : (s.game.board.mapPieces (·.beginTurnOf s.game.turn)).get? id = some q := hq
  rw [Board.get?_mapPieces] at hget
  obtain ⟨p, hp, rfl⟩ := Option.map_eq_some_iff.1 hget
  rw [denied_cons]
  by_cases howner : p.owner = s.game.turn
  · have hrouses : Event.Rouses id (.began s.game.turn s.game.board) := ⟨p, hp, howner⟩
    rw [← howner, p.bars_beginTurnOf, howner]
    exact ⟨fun h => absurd h Bool.false_ne_true,
      fun h => h.elim False.elim fun h => absurd hrouses h.1⟩
  · rw [Piece.beginTurnOf_of_ne howner, hs id p x hp]
    refine ⟨fun h => .inr ⟨?_, h⟩, fun h => h.elim False.elim And.right⟩
    rintro ⟨p', hp', howner'⟩
    cases hp.symm.trans hp'
    exact howner howner'

theorem Stage.Stride.heeds (h : s.Stride events s') (hnone : pardons s'.trace = false)
    (hs : s.game.Heeds past) : s'.game.Heeds (events ++ past) := by
  cases h with
  | goesOn _ hgoes => exact hgoes.heeds hnone hs
  | joins id _ hjoins => exact hjoins.heeds hnone hs
  | begins total => exact s.heeds_beginTurn total hs
  | does id x _ hdoes => exact hdoes.heeds hnone hs

theorem Stage.Passage.heeds (h : s.Passage events s') (hnone : pardons s'.trace = false)
    (hs : s.game.Heeds past) : s'.game.Heeds (events ++ past) := by
  induction h with
  | refl => exact hs
  | @next events later mid last _ hlast ih =>
    have hbefore : pardons mid.trace = false := any_eq_false_of_suffix hlast.later hnone
    rw [List.append_assoc]
    exact hlast.heeds hnone (ih hbefore)

/-! ### Who may act -/

theorem Board.Sound.get?_of_pieceAt? {b : Board} (hb : b.Sound) {hex : Hex} {p : Piece}
    (hp : b.pieceAt? hex = some p) : b.get? p.id = some p := by
  obtain ⟨e, he, rfl⟩ := List.mem_map.1 (Board.mem_of_pieceAt? hp).1
  rw [hb.keyed e he]
  exact Board.get?_of_mem hb.nodup he

/-- What is kept has passed the test. -/
theorem List.mem_of_mem_filterM {α : Type} {test : α → Outcome Bool} {xs ys : List α} {y : α}
    (h : xs.filterM test = .ok ys) (hy : y ∈ ys) : y ∈ xs ∧ test y = .ok true := by
  have hkept : ∀ {xs found ys : List α}, List.filterAuxM test xs found = .ok ys → y ∈ ys →
      y ∈ found ∨ y ∈ xs ∧ test y = .ok true := by
    intro xs
    induction xs with
    | nil =>
      intro found ys h hy
      cases h
      exact .inl hy
    | cons x xs ih =>
      intro found ys h hy
      rw [List.filterAuxM] at h
      obtain ⟨b, hx, h⟩ := Outcome.exists_of_bind h
      obtain hfound | ⟨hmem, htest⟩ := ih h hy
      · cases b with
        | false => exact .inl hfound
        | true =>
          obtain rfl | hfound := List.mem_cons.1 hfound
          · exact .inr ⟨List.mem_cons_self, hx⟩
          · exact .inl hfound
      · exact .inr ⟨List.mem_cons_of_mem x hmem, htest⟩
  rw [List.filterM] at h
  obtain ⟨found, hfound, h⟩ := Outcome.exists_of_bind h
  cases h
  exact (hkept hfound (List.mem_reverse.1 hy)).resolve_left List.not_mem_nil

namespace Match
variable {m : Match} {start target : Hex} {p : Piece} {hexes : List Hex}

/-- Who waits to move goes nowhere. -/
theorem movementHexes_of_cantMove (hp : m.board.pieceAt? start = some p)
    (hwaits : p.cantMove = true) : m.movementHexes start = .ok [] := by
  have hleft : p.movesLeft = .ok 0 := by simp [Piece.movesLeft, hwaits]
  have hoccupied : m.board.occupied start = true := by simp [Board.occupied, hp]
  have hhexes : m.movementHexes start = .ok (m.reachable 0 p.canMoveOverPieces start) := by
    unfold movementHexes
    rw [hp]
    dsimp only
    rw [hleft]
    rfl
  rw [hhexes, reachable, Hex.search, List.filter_cons_of_neg (by simp [hoccupied]), List.filter_nil]

/-- What may be attacked is somebody else's, and the attacker does not wait. -/
theorem of_mayAttack (h : m.mayAttack p target = .ok true) :
    ∃ d, m.board.pieceAt? target = some d ∧ d.owner ≠ p.owner ∧ p.bars .attack = false := by
  unfold mayAttack at h
  split at h
  · cases h
  · rename_i d hd
    refine ⟨d, hd, ?_⟩
    split at h
    · rename_i hcan
      simp only [Bool.and_eq_true, bne_iff_ne, Bool.not_eq_true'] at hcan
      exact ⟨hcan.1.1.1, hcan.1.2⟩
    · cases h

/-- Only who does not wait to attack reaches anything. -/
theorem bars_attack_of_mem (hp : m.board.pieceAt? start = some p)
    (h : m.attackHexes start = .ok hexes) (ht : target ∈ hexes) : p.bars .attack = false := by
  unfold attackHexes at h
  rw [hp] at h
  obtain ⟨stops, -, h⟩ := Outcome.exists_of_bind h
  obtain ⟨-, -, -, hfree⟩ := of_mayAttack (List.mem_of_mem_filterM h ht).2
  exact hfree

end Match

/-! ### Acting -/

namespace Stage

/-- On the way the object on the cell does that, which it has not had to wait for. -/
def Exerts (s : Stage) (hex : Hex) (x : Exertion) (s' : Stage) : Prop :=
  ∃ p events, s.game.board.pieceAt? hex = some p ∧ p.bars x = false ∧
    s.Passage events s' ∧ .did p.id x ∈ events

theorem Exerts.next {hex : Hex} {x : Exertion} {s'' : Stage} (h : s.Exerts hex x s')
    (h' : s'.Passes s'') : s.Exerts hex x s'' := by
  obtain ⟨p, events, hp, hfree, hpassage, hdid⟩ := h
  obtain ⟨later, h'⟩ := h'
  exact ⟨p, later ++ events, hp, hfree, hpassage.trans h', List.mem_append_right later hdid⟩

end Stage

/-- The object that acts for a player, by its cell, and what it does. -/
def Resumption.exertion? : Resumption → Option (Hex × Exertion)
  | .playCard .. => none
  | .movePiece start _ => some (start, .move)
  | .attackPiece start _ => some (start, .attack)
  | .activateAbility hex _ => some (hex, .activate)

namespace Attempt
variable {run : Runner} {player : Color} {x : Unit}

variable (hrun : run.Goes)
include hrun

theorem exerts_movePiece {start goal : Hex}
    (h : (movePiece run player start goal).run.run s = .ok (.ok x, s')) :
    s.Exerts start .move s' := by
  obtain ⟨p, walked, hp, -, hwalked, -⟩ := walk_of_movePiece h
  obtain ⟨hexes, hhexes, hgoal⟩ := hwalked.goal
  have hfree : p.bars .move = false := by
    refine Bool.eq_false_iff.2 fun hwaits => ?_
    rw [Match.movementHexes_of_cantMove hp hwaits] at hhexes
    cases hhexes
    cases hgoal
  have hdone : s.Exerts start .move s :=
    ⟨p, _, hp, hfree, .single (s.stride_free p.id .move (.inl rfl)), List.mem_singleton_self _⟩
  exact hdone.next (goes_movePiece hrun player start goal _ _ _ h).passes

/-- Who is gone when it comes to the blow does not pay for it. -/
theorem exerts_attackPiece {start target : Hex}
    (h : (attackPiece run player start target).run.run s = .ok (.ok x, s')) :
    s.Exerts start .attack s' := by
  obtain ⟨a, hexes, defender, stand, mid, ha, -, hhexes, htarget, -, happroach, hstrikes⟩ :=
    approached_of_attackPiece h
  obtain ⟨before, hbefore⟩ := (happroach.conduct hrun).passes
  have hfree := Match.bars_attack_of_mem ha hhexes htarget
  have hdone : ∀ struck : Stage, mid.Stride [.did a.id .attack] struck →
      s.Exerts start .attack struck := fun struck hdoes =>
    ⟨a, _, ha, hfree, hbefore.next hdoes, List.mem_cons_self⟩
  obtain ⟨hgone, rfl⟩ | hstruck := hstrikes.struck hrun
  · exact hdone s' (s'.stride_free a.id .attack (.inr hgone))
  · exact (hdone _ (mid.stride_mark a.id .struck)).next hstruck.passes

theorem exerts_activateAbility (hquiet : run.Built false) {hex : Hex} {index : Nat}
    (hsound : s.game.board.Sound)
    (h : (activateAbility run player hex index).run.run s = .ok (.ok x, s')) :
    s.Exerts hex .activate s' := by
  obtain ⟨own, p, mid, hown, hp, hcan, hconduct, rfl⟩ := spent_of_activateAbility hrun hquiet h
  obtain rfl : p = own := by
    rw [hsound.get?_of_pieceAt? hown] at hp
    exact (Option.some.inj hp).symm
  obtain ⟨before, hbefore⟩ := hconduct.passes
  have hfree : p.bars .activate = false := by
    simp only [Piece.canActivate, Bool.and_eq_true, Bool.not_eq_true'] at hcan
    exact hcan.1
  exact ⟨p, _, hown, hfree, hbefore.next (mid.stride_mark p.id .spent), List.mem_cons_self⟩

theorem exerts_perform (hquiet : run.Built false) {resumption : Resumption} {hex : Hex}
    {y : Exertion} (hsound : s.game.board.Sound) (hexerts : resumption.exertion? = some (hex, y))
    (h : (perform run player resumption).run.run s = .ok (.ok x, s')) : s.Exerts hex y s' := by
  cases resumption with
  | playCard => cases hexerts
  | movePiece start goal =>
    cases hexerts
    exact exerts_movePiece hrun h
  | attackPiece start target =>
    cases hexerts
    exact exerts_attackPiece hrun h
  | activateAbility =>
    cases hexerts
    exact exerts_activateAbility hrun hquiet hsound h

end Attempt

/-! ### Annals -/

namespace Match
variable {depth : Nat} {m m' : Match} {c : Command} {resumption : Resumption}
  {chosen : List Choice} {trace told : List Happening}

/-- What a command is about to carry out, from its start or from where it was left. -/
def resumption? (m : Match) : Command → Option Resumption
  | .chooseTarget .. => m.pending.map (·.resumption)
  | c => c.resumption?

/-- The object a command is asked of, and what it is asked to do. -/
def exertion? (m : Match) (c : Command) : Option (PieceId × Exertion) := do
  let (hex, x) ← (← m.resumption? c).exertion?
  return (← m.board.idAt? hex, x)

/-- These are the events of a command that is carried out. What the object it is asked of has done
is among them. -/
structure Recounts (m : Match) (c : Command) (m' : Match) (trace : List Happening)
    (events : List Event) : Prop where
  passage : ∃ first last : Stage, m.Repeats first.game ∧ first.trace = [] ∧
    first.Passage events last ∧ last.trace = trace ∧ last.game.Repeats m'
  named : ∀ id x, m.exertion? c = some (id, x) → .did id x ∈ events

/-- A match with what is told of it and the events in it, both last first. -/
inductive Annals : Match → List Happening → List Event → Prop where
  | start {s : MatchSetup} {m : Match} : s.start = .ok m → Annals m [] [.joined 2, .joined 1]
  | idle {depth : Nat} {m m' : Match} {c : Command} {trace told : List Happening}
    {past : List Event} : Annals m told past → m.submitTraced depth c = .ok (m', trace) →
    ¬ m'.Accepted → Annals m' told past
  | done {depth : Nat} {m m' : Match} {c : Command} {trace told : List Happening}
    {past events : List Event} : Annals m told past →
    m.submitTraced depth c = .ok (m', trace) → m'.Accepted → m.Recounts c m' trace events →
    Annals m' (trace ++ told) (events ++ past)

theorem Repeats.heeds (h : m.Repeats m') (hm : m.Heeds past) : m'.Heeds past := by
  obtain ⟨notices, rfl⟩ := h.told
  exact hm

/-- The object a command is asked of does not have to wait. -/
def Spares (m : Match) (c : Command) : Prop :=
  ∀ id x, m.exertion? c = some (id, x) → ∃ p, m.board.get? id = some p ∧ p.bars x = false

theorem Attempted.recounted {player : Color} (hsound : m.board.Sound)
    (hresumption : m.resumption? c = some resumption)
    (h : Attempted depth m.heard player resumption chosen m' trace) (haccepted : m'.Accepted) :
    m.Spares c ∧ ∃ events, m.Recounts c m' trace events := by
  cases h with
  | rejected r => exact (not_accepted_of_refusal (refusal_abandon _ _ r) haccepted).elim
  | refused r => exact (not_accepted_of_refusal (refusal_abandon _ _ r) haccepted).elim
  | suspended => exact nomatch haccepted.2
  | @carried st st' hrun _ _ hsettle =>
    have hbegins := (repeats_heard m).trans (repeats_scratch player chosen m.heard)
    have hends := repeats_release player st'.game
    have hsettled := (conduct_settle hsettle).passes
    cases hexerts : resumption.exertion? with
    | none =>
      have hasked : m.exertion? c = none := by simp [exertion?, hresumption, hexerts]
      obtain ⟨events, hpassage⟩ := (venture_perform hrun).passes.trans hsettled
      refine ⟨?_, events, ⟨_, st', hbegins, rfl, hpassage, rfl, hends⟩, ?_⟩ <;>
        exact fun _ _ hsome => nomatch hasked.symm.trans hsome
    | some exerted =>
      obtain ⟨hex, x⟩ := exerted
      have hacts := Attempt.exerts_perform (Play.goes_runner depth) (Play.built_runner false depth)
        hsound hexerts hrun
      obtain ⟨p, events, hp, hfree, hpassage, hdid⟩ := hacts.next hsettled
      have hp : m.board.pieceAt? hex = some p := hp
      have hasked : m.exertion? c = some (p.id, x) := by
        simp [exertion?, hresumption, hexerts, Board.idAt?, hp]
      refine ⟨fun id y hy => ?_, events, ⟨_, st', hbegins, rfl, hpassage, rfl, hends⟩,
        fun id y hy => ?_⟩ <;> cases hasked.symm.trans hy
      · exact ⟨p, hsound.get?_of_pieceAt? hp, hfree⟩
      · exact hdid

/-- A command that is not refused at once attempts what it is about to carry out. -/
theorem attempted_of_resumption (h : m.submitTraced depth c = .ok (m', trace))
    (hresumption : m.resumption? c = some resumption) :
    (m'.refusal ≠ none ∧ trace = []) ∨
      ∃ chosen, Attempted depth m.heard c.player resumption chosen m' trace := by
  cases submitted h with
  | early => exact .inl ⟨nofun, rfl⟩
  | started _ _ _ hstarts h =>
    have hsame : m.resumption? c = c.resumption? := by
      cases c with
      | chooseTarget => cases hstarts
      | _ => rfl
    cases hresumption.symm.trans (hsame.trans hstarts)
    exact .inr ⟨_, h⟩
  | @answered prompt x _ _ _ hpending _ hc _ h =>
    have hpending : m.pending = some prompt := hpending
    rw [hc, resumption?, hpending] at hresumption
    cases hresumption
    exact .inr ⟨_, h⟩
  | passed _ _ _ hc =>
    rw [hc] at hresumption
    cases hresumption

theorem recounted (hsound : m.board.Sound) (h : m.submitTraced depth c = .ok (m', trace))
    (haccepted : m'.Accepted) : m.Spares c ∧ ∃ events, m.Recounts c m' trace events := by
  cases submitted h with
  | early => exact nomatch haccepted.1
  | started _ _ _ hresumption h =>
    refine h.recounted hsound ?_ haccepted
    cases c with
    | chooseTarget => cases hresumption
    | _ => exact hresumption
  | @answered prompt x _ _ _ hpending _ hc _ h =>
    refine h.recounted hsound ?_ haccepted
    have hpending : m.pending = some prompt := hpending
    rw [hc, resumption?, hpending]
    rfl
  | @passed st _ _ _ hc hrun =>
    have hasked : m.exertion? c = none := by
      rw [hc]
      rfl
    obtain ⟨_, s₁, hpass, hsettle⟩ := Play.run_bind hrun
    obtain ⟨events, hpassage⟩ := ((conduct_passTurn hpass).trans (conduct_settle hsettle)).passes
    refine ⟨?_, events, ⟨_, st, repeats_heard m, rfl, hpassage, rfl, ⟨⟨st.game.notices, rfl⟩, rfl⟩⟩,
      ?_⟩ <;> exact fun _ _ hsome => nomatch hasked.symm.trans hsome

namespace Annals

theorem chronicle (h : m.Annals told past) : m.Chronicle told := by
  induction h with
  | start h => exact .start h
  | idle _ h hnot ih => exact ih.idle h hnot
  | done _ h haccepted _ ih => exact ih.done h haccepted

/-- The events and what is told agree on the turns that have begun. -/
theorem turns (h : m.Annals told past) :
    HexDuel.turns told = past.filterMap (·.beginner?) ++ [.blue] := by
  induction h with
  | start => rfl
  | idle _ _ _ ih => exact ih
  | @done _ _ _ _ trace told past events _ _ _ hrecounts ih =>
    obtain ⟨first, last, -, hfresh, hpassage, rfl, -⟩ := hrecounts.passage
    have hturns := hpassage.turns
    rw [hfresh] at hturns
    have hbegun := List.append_cancel_right hturns
    unfold HexDuel.turns at ih ⊢
    rw [List.filterMap_append, List.append_assoc, ih, hbegun, List.filterMap_append]
    exact (List.append_assoc _ _ _).symm

theorem heeds (h : m.Annals told past) (hnone : pardons told = false) : m.Heeds past := by
  induction h with
  | start h =>
    intro id p x hp
    -- both cores are new
    obtain ⟨rfl, rfl⟩ | ⟨rfl, rfl⟩ := MatchSetup.core_of_start h hp
    · exact ⟨fun _ => .still (fun h => h) (.now rfl), fun _ => by cases x <;> rfl⟩
    · exact ⟨fun _ => .now rfl, fun _ => by cases x <;> rfl⟩
  | idle _ h hnot ih =>
    obtain ⟨first, last, hundergoes⟩ := undergoes h
    exact (hundergoes.discarded hnot).heeds (ih hnone)
  | @done _ _ _ _ trace told past events _ _ _ hrecounts ih =>
    obtain ⟨first, last, hbegins, -, hpassage, rfl, hends⟩ := hrecounts.passage
    rw [pardons, List.any_append, Bool.or_eq_false_iff] at hnone
    exact hends.heeds (hpassage.heeds hnone.1 (hbegins.heeds (ih hnone.2)))

end Annals

/-- A command that is carried out has annals of its own. Any other one leaves them as they are. -/
theorem Annals.next (h : m.Annals told past) (hc : m.submitTraced depth c = .ok (m', trace)) :
    (m'.Accepted → ∃ events, m.Recounts c m' trace events ∧
      m'.Annals (trace ++ told) (events ++ past)) ∧
    (¬ m'.Accepted → m'.Annals told past) := by
  refine ⟨fun haccepted => ?_, h.idle hc⟩
  obtain ⟨-, events, hevents⟩ := recounted h.chronicle.reachable.board_sound hc haccepted
  exact ⟨events, hevents, h.done hc haccepted hevents⟩

theorem Chronicle.annals (h : m.Chronicle told) : ∃ past, m.Annals told past := by
  induction h with
  | start h => exact ⟨_, .start h⟩
  | idle _ h hnot ih =>
    obtain ⟨past, ih⟩ := ih
    exact ⟨past, ih.idle h hnot⟩
  | done _ h haccepted ih =>
    obtain ⟨past, ih⟩ := ih
    obtain ⟨events, -, hdone⟩ := (ih.next h).1 haccepted
    exact ⟨_, hdone⟩

/-- As long as no object has been let act once more, nothing is done that the annals deny, and what
they deny can be read off the objects. They can be kept in every match, command by command, with
each turn that begins, whoever it is that has begun it. -/
theorem Chronicle.action_economy (h : m.Chronicle told) :
    (∃ past, m.Annals told past) ∧
    ∀ past, m.Annals told past →
      turns told = past.filterMap (·.beginner?) ++ [.blue] ∧
      (pardons told = false → m.Heeds past) ∧
      ∀ depth c m' trace, m.submitTraced depth c = .ok (m', trace) →
        (m'.Accepted → ∃ events, m.Recounts c m' trace events ∧
          m'.Annals (trace ++ told) (events ++ past)) ∧
        (¬ m'.Accepted → m'.Annals told past) ∧
        (m'.Accepted → pardons told = false →
          ∀ id x, m.exertion? c = some (id, x) → ¬ Denied id x past) := by
  refine ⟨h.annals, fun past hannals => ⟨hannals.turns, hannals.heeds, ?_⟩⟩
  intro depth c m' trace hc
  refine ⟨(hannals.next hc).1, (hannals.next hc).2, fun haccepted hnone id x hasked hdenied => ?_⟩
  obtain ⟨hspares, -⟩ := recounted h.reachable.board_sound hc haccepted
  obtain ⟨p, hp, hfree⟩ := hspares id x hasked
  rw [(hannals.heeds hnone id p x hp).2 hdenied] at hfree
  cases hfree

/-- Blue's robot moves in the turn after the one in which it has come. -/
theorem Chronicle.action_economy_solo :
    ∃ (m m' : Match) (told trace : List Happening) (past : List Event), m.Chronicle told ∧
      m.Annals told past ∧ turns told = [.blue, .orange, .blue] ∧
      m.submitTraced maxDepth (.movePiece .blue (.axial (-3) 1) (.axial (-2) 1)) =
        .ok (m', trace) ∧ m'.Accepted ∧
      m.exertion? (.movePiece .blue (.axial (-3) 1) (.axial (-2) 1)) = some (4, .move) ∧
      ¬ Denied 4 .move past ∧
      ∃ events, .did 4 .move ∈ events ∧ m'.Annals (trace ++ told) (events ++ past) := by
  have hrun : ((MatchSetup.solo [.making .robot ⟨some 1, 1, some 1⟩]).start.holds fun m =>
      (m.submitTraced maxDepth .playSolo).holds fun x =>
        (x.1.refusal.isNone && x.1.pending.isNone) &&
        (x.1.submitTraced maxDepth (.passTurn .blue)).holds fun y =>
          (y.1.refusal.isNone && y.1.pending.isNone) &&
          (y.1.submitTraced maxDepth (.passTurn .orange)).holds fun z =>
            (z.1.refusal.isNone && z.1.pending.isNone) &&
            decide (turns (z.2 ++ (y.2 ++ x.2)) = [.blue, .orange, .blue]) &&
            !pardons (z.2 ++ (y.2 ++ x.2)) &&
            decide (z.1.exertion? (.movePiece .blue (.axial (-3) 1) (.axial (-2) 1)) =
              some (4, .move)) &&
            (z.1.submitTraced maxDepth
              (.movePiece .blue (.axial (-3) 1) (.axial (-2) 1))).holds fun w =>
                w.1.refusal.isNone && w.1.pending.isNone) = true := by
    decide +kernel
  obtain ⟨m, hstart, hrun⟩ := Outcome.exists_of_holds hrun
  obtain ⟨⟨m₁, t₁⟩, hplay, hrun⟩ := Outcome.exists_of_holds hrun
  obtain ⟨hplayed, hrun⟩ := Bool.and_eq_true_iff.1 hrun
  obtain ⟨⟨m₂, t₂⟩, hblue, hrun⟩ := Outcome.exists_of_holds hrun
  obtain ⟨hended, hrun⟩ := Bool.and_eq_true_iff.1 hrun
  obtain ⟨⟨m₃, t₃⟩, horange, hrun⟩ := Outcome.exists_of_holds hrun
  obtain ⟨hready, hrun⟩ := Bool.and_eq_true_iff.1 hrun
  obtain ⟨⟨m₄, trace⟩, hmove, hmoved⟩ := Outcome.exists_of_holds hrun
  simp only [Bool.and_eq_true, Option.isNone_iff_eq_none, decide_eq_true_eq,
    Bool.not_eq_true'] at hplayed hended hready hmoved
  obtain ⟨⟨⟨hbegun, hturns⟩, hnone⟩, hasked⟩ := hready
  have htold : m₃.Chronicle (t₃ ++ (t₂ ++ t₁)) := by
    have hdone := ((Chronicle.start hstart).done hplay hplayed).done hblue hended
    rw [List.append_nil] at hdone
    exact hdone.done horange hbegun
  obtain ⟨⟨past, hannals⟩, heconomy⟩ := htold.action_economy
  obtain ⟨-, -, hnext⟩ := heconomy past hannals
  obtain ⟨hdone, -, hdenied⟩ := hnext _ _ _ _ hmove
  obtain ⟨events, hrecounts, hlater⟩ := hdone hmoved
  exact ⟨m₃, m₄, _, trace, past, htold, hannals, hturns, hmove, hmoved, hasked,
    hdenied hmoved hnone 4 .move hasked, events, hrecounts.named 4 .move hasked, hlater⟩

end Match

end HexDuel
