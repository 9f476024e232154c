import HexDuel.Proofs.Economy
import HexDuel.Proofs.Paths
import Mathlib

/-!
How far an object walks in a turn. Each move goes along a path, but what it costs is the straight
distance to the goal. So the straight distances, with the whole of the last path, are never more
than the object is fast; and the paths are as long as they like when there are detours before the
last move.
-/

set_option autoImplicit false

namespace HexDuel

variable {s s' s'' : Stage}

/-! ### Moves are kept count of -/

/-- On the way no object loses count of its moves. -/
structure Stage.Wears (s s' : Stage) : Prop where
  tires : s.Tires s'
  lastId : s.game.lastId ≤ s'.game.lastId
  later : s.trace <:+ s'.trace

namespace Stage.Wears

theorem refl (s : Stage) : s.Wears s := ⟨.of_board rfl, Nat.le_refl _, List.suffix_rfl⟩

theorem trans (h : s.Wears s') (h' : s'.Wears s'') : s.Wears s'' :=
  ⟨h.tires.trans h'.tires h.lastId h'.later, Nat.le_trans h.lastId h'.lastId,
    h.later.trans h'.later⟩

theorem of_act (h : Act s s') (htires : s.Tires s') : s.Wears s' :=
  ⟨htires, h.lastId_le, h.deeds.steps.trace_suffix⟩

theorem of_deeds (h : Deeds s s') (htires : s.Tires s') : s.Wears s' :=
  ⟨htires, h.steps.lastId_le, h.steps.trace_suffix⟩

theorem inquired (h : Relation.ReflTransGen Inquiry s s') : s.Wears s' :=
  of_deeds (deeds_of_inquired h) (.of_board (board_of_inquired h))

end Stage.Wears

/-- Upkeep has no part in it. -/
theorem Piece.upkept_movesMade : Upkept fun p q => p.movesMade ≤ q.movesMade :=
  .of_rewritten (fun _ _ _ => Int.le_trans) fun p q h => by
    obtain ⟨_, _, _, _, _, rfl⟩ := h
    exact Int.le_refl _

theorem Stage.wears_of_tended (h : Relation.ReflTransGen Tending s s') : s.Wears s' :=
  .of_deeds (deeds_of_tended h) (.of_becomes (Piece.upkept_movesMade.tended h))

theorem Stage.tires_erase (s : Stage) (id : PieceId) :
    s.Tires (s.map (·.changeBoard (·.erase id))) := by
  intro k q hq
  have hget : (s.game.board.erase id).get? k = some q := hq
  rw [Board.get?_erase] at hget
  split at hget
  · cases hget
  · exact .inl ⟨q, hget, Int.le_refl _⟩

theorem TakenOff.wears {id : PieceId} {p : Piece} (h : TakenOff s id p s') : s.Wears s' :=
  Stage.Wears.trans ⟨s.tires_erase id, Nat.le_refl _, List.suffix_rfl⟩
    (Stage.wears_of_tended h.removed.tended)

theorem Buried.wears {id : PieceId} (h : Buried id s s') : s.Wears s' := by
  cases h with
  | gone => exact .refl s
  | @discard p mid htaken =>
    have hboard := mid.board_discarded p.owner p.card.reset
    refine .of_deeds (Buried.discard htaken).deeds ?_
    exact htaken.wears.tires.trans (.of_board hboard) htaken.wears.lastId List.suffix_rfl

theorem Stage.Dooms.wears {id : PieceId} {start : Stage} (h : s.Dooms id start) (card : Card) :
    s.Wears (start.topple id card) := by
  have hfall : start.Tires (start.topple id card) :=
    .of_becomes (.modify (fun _ => Int.le_refl _) (f := (·.fall)) (fun _ => Int.le_refl _)
      start.game.board id)
  refine .of_deeds (h.deeds card) ?_
  obtain rfl | rfl := h
  · exact hfall
  · have hcondemned : s.Tires (s.map (·.changePiece id (·.condemn))) :=
      .piece id fun _ => Int.le_refl _
    exact hcondemned.trans hfall (Nat.le_refl _) (List.suffix_cons _ _)

theorem Stage.tires_place {card : Card} {hex : Hex} {owner : Color} {justPlayed : Bool} :
    s.Tires (s.place card hex owner justPlayed) := by
  intro id q hq
  obtain ⟨rfl, rfl⟩ | hold := Board.get?_enter hq
  · exact .inr ⟨Int.le_refl 0, .inr (Nat.lt_succ_self _)⟩
  · exact .inl ⟨q, hold, Int.le_refl _⟩

theorem Stage.Delays.tires (h : s.Delays s') : s.Tires s' := by
  cases h with
  | takeControl owner id =>
    change s.Tires ⟨Resolving.takeControl owner id s.game, s.trace⟩
    unfold Resolving.takeControl
    split
    · exact .of_board rfl
    · split
      · exact .of_board rfl
      · exact Stage.Tires.piece id (f := (·.joining owner)) fun _ => Int.le_refl _
  | exert id hmarks =>
    refine .piece id fun p => ?_
    cases hmarks <;> exact Int.le_refl _

theorem Stage.tires_retire (s : Stage) : s.Tires s.retire := by
  have hended : s.game.board.Becomes (fun p q => p.movesMade ≤ q.movesMade)
      (s.game.board.mapPieces (·.endTurnOf s.game.turn)) := by
    refine .mapPieces (fun p => ?_) _
    unfold Piece.endTurnOf
    split <;> exact Int.le_refl _
  exact .of_becomes (.trans Piece.upkept_movesMade.trans hended
    (Piece.upkept_movesMade.withdrawAll (f := (·.countDown)) (fun _ => Int.le_refl _) _ _))

/-- A turn that begins is told of. -/
theorem Stage.Begins.tires (h : s.Begins s') : s.Tires s' := by
  cases h with
  | closed => exact .of_board rfl
  | begun =>
    intro id q hq
    have hget : (s.game.board.mapPieces (·.beginTurnOf s.game.turn)).get? id = some q := hq
    rw [Board.get?_mapPieces] at hget
    obtain ⟨p, hp, rfl⟩ := Option.map_eq_some_iff.1 hget
    unfold Piece.beginTurnOf
    split
    · exact .inr ⟨Int.le_refl 0, .inl rfl⟩
    · exact .inl ⟨p, hp, Int.le_refl _⟩

theorem Conduct.wears (h : Conduct s s') : s.Wears s' := by
  induction h with
  | refl s => exact .refl s
  | trans _ _ ih ih' => exact ih.trans ih'
  | errand h _ _ htires => exact .of_act (.errand h) htires
  | delay h => exact .of_act (.errand h.errand) h.tires
  | @fund c available s => exact .of_act (.errand (.turnover (.setAvailable c available))) (.of_board rfl)
  | reapply h => exact Stage.wears_of_tended (Play.goes_reapply _ _ _ h)
  | install id sentence duration h => exact Stage.wears_of_tended (Play.goes_grant _ _ _ _ _ _ _ h)
  | condemn id h => exact .of_act (.condemn id h) (.piece id fun _ => Int.le_refl _)
  | destroy _ _ hdooms _ hburied ih => exact (hdooms.wears _).trans (ih.trans hburied.wears)
  | @giveBack id p s mid h =>
    refine .of_act (.giveBack h) ?_
    exact h.wears.tires.trans (.of_board (mid.board_returned p.owner p.card.reset))
      h.wears.lastId List.suffix_rfl
  | @spawn _ _ _ _ _ _ card hex owner s _ s' _ hresolve _ hinquired htakes hknown =>
    have hfound := (Resolving.inquired_of_resolve hresolve).trans hinquired
    exact (Stage.Wears.inquired hfound).trans
      (.of_deeds (.single (.spawn card owner htakes hknown)) Stage.tires_place)
  | @pass s ended s' _ hasked hbegins ih =>
    have hretired : s.Wears s.retire := .of_act s.act_retire s.tires_retire
    have hhanded : ended.Wears (ended.handOver s.game.turn.opponent) := by
      refine .of_act (Stage.act_handOver ?_) (.of_board (Match.board_checkVictory ended.game))
      rwa [Color.opponent_opponent]
    exact hretired.trans (ih.trans (hhanded.trans (.of_act hbegins.act hbegins.tires)))

theorem Venture.wears (h : Venture s s') : s.Wears s' := by
  have hresolving : ∀ (s : Stage) b, s.Wears (s.resolving b) := fun s b =>
    .of_act (.errand (.turnover (.eventResolving b))) (.of_board rfl)
  cases h with
  | conduct h => exact h.wears
  | @piece paid placed settled _ hpaid hlands hsettled h =>
    have hlanded := hlands.errand
    have harrived := (settled.conduct_arrived placed).wears
    refine hpaid.wears.trans (Stage.Wears.trans (.of_act (.errand hlanded) ?_)
      (hsettled.wears.trans (harrived.trans h.wears)))
    obtain @⟨player, id, card, _, hex, -, htakes, -⟩ := hlands
    have hdropped : paid.Tires (paid.map (·.dropFromHand player id)) := .of_board rfl
    exact hdropped.trans Stage.tires_place (Nat.le_refl _) (List.suffix_cons _ _)
  | @event player id resolved shelved _ hresolved hshelved h =>
    have hput : resolved.Wears shelved := by
      cases hshelved with
      | gone => exact .refl resolved
      | spent hheld => exact .of_act (.errand (.spend hheld)) (.of_board rfl)
    exact (hresolving s true).trans (hresolved.wears.trans (hput.trans
      ((hresolving shelved false).trans h.wears)))

/-- Who moves walks first, and is charged the straight distance. -/
theorem Attempt.walked_of_run {run : Runner} (hrun : run.Goes) {player : Color} {start goal : Hex}
    {x : Unit} (hsound : s.game.board.Sound)
    (h : (movePiece run player start goal).run.run s = .ok (.ok x, s')) :
    ∃ p hexes, s.game.board.pieceAt? start = some p ∧ s.game.movementHexes start = .ok hexes ∧
      goal ∈ hexes ∧
      Conduct (s.map (·.changePiece p.id
        (·.walk (p.movesMade + start.distance goal) goal))) s' := by
  obtain ⟨p, walked, hp, -, hwalked, hoccur⟩ := walk_of_movePiece h
  have hget := hsound.get?_of_pieceAt? hp
  cases hwalked with
  | gone _ _ hgone => cases hget.symm.trans hgone
  | walked hhexes hgoal hw =>
    cases hget.symm.trans hw
    exact ⟨p, _, hp, hhexes, hgoal,
      (Stage.conduct_shows _ _ _).trans ((Play.goes_occur hrun _ _ (.pure ())).conduct hoccur)⟩

/-! ### Moves in a match -/

namespace Match
variable {depth : Nat} {m m' : Match} {c : Command} {trace : List Happening} {id : PieceId}

theorem Repeats.board (h : m.Repeats m') : m'.board = m.board := by
  obtain ⟨notices, rfl⟩ := h.told
  rfl

/-- In a command that is carried out no object loses count of its moves. -/
theorem wears_of_accepted (h : m.submitTraced depth c = .ok (m', trace)) (haccepted : m'.Accepted) :
    (⟨m, []⟩ : Stage).Wears ⟨m', trace⟩ := by
  obtain ⟨first, last, hundergoes⟩ := undergoes h
  obtain ⟨hends, rfl⟩ := hundergoes.stands haccepted
  have hbegin : (⟨m, []⟩ : Stage).Wears first := by
    refine ⟨.of_board hundergoes.begins.board, ?_, List.nil_suffix⟩
    obtain ⟨notices, hfirst⟩ := hundergoes.begins.told
    exact Nat.le_of_eq (congrArg (·.lastId) hfirst).symm
  have hend : last.Wears ⟨m', last.trace⟩ := by
    refine ⟨.of_board hends.board, ?_, List.suffix_rfl⟩
    obtain ⟨notices, hlast⟩ := hends.told
    exact Nat.le_of_eq (congrArg (·.lastId) hlast).symm
  exact hbegin.trans (hundergoes.venture.wears.trans hend)

/-- Nobody has made fewer moves than none. -/
theorem Reachable.movesMade_nonneg (hm : m.Reachable) {p : Piece}
    (hp : m.board.get? id = some p) : 0 ≤ p.movesMade := by
  induction hm generalizing id p with
  | start h =>
    obtain ⟨-, rfl⟩ | ⟨-, rfl⟩ := MatchSetup.core_of_start h hp <;> exact Int.le_refl 0
  | @next depth m m' c trace _ h ih =>
    by_cases haccepted : m'.Accepted
    · obtain ⟨q, hq, hle⟩ | ⟨hpos, -⟩ := (wears_of_accepted h haccepted).tires id p hp
      · exact Int.le_trans (ih hq) hle
      · exact hpos
    · obtain ⟨first, last, hundergoes⟩ := undergoes h
      rw [(hundergoes.discarded haccepted).board] at hp
      exact ih hp

/-- How an object moves when the move is carried out. Unless objects are given their moves back, it
has then made the moves it had made and the straight distance besides. -/
structure Walks (m : Match) (start goal : Hex) (m' : Match) (trace : List Happening) (p : Piece) :
    Prop where
  mover : m.board.pieceAt? start = some p
  reaches : ∃ hexes, m.movementHexes start = .ok hexes ∧ goal ∈ hexes
  charged : refreshed trace = false → p.id ≤ m.lastId →
    ∀ q, m'.board.get? p.id = some q → p.movesMade + start.distance goal ≤ q.movesMade

theorem Attempted.walks {player : Color} {start goal : Hex} {chosen : List Choice}
    (hsound : m.board.Sound)
    (h : Attempted depth m.heard player (.movePiece start goal) chosen m' trace)
    (haccepted : m'.Accepted) : ∃ p, m.Walks start goal m' trace p := by
  cases h with
  | rejected r => exact (not_accepted_of_refusal (refusal_abandon _ _ r) haccepted).elim
  | refused r => exact (not_accepted_of_refusal (refusal_abandon _ _ r) haccepted).elim
  | suspended => exact nomatch haccepted.2
  | @carried st st' hrun _ _ hsettle =>
    have hsound' : (m.heard.scratch player chosen).game.board.Sound := hsound
    obtain ⟨p, hexes, hp, hhexes, hgoal, hconduct⟩ :=
      Attempt.walked_of_run (Play.goes_runner depth) hsound' hrun
    refine ⟨p, hp, ⟨hexes, hhexes, hgoal⟩, fun hnone hold q hq => ?_⟩
    have hget : m.board.get? p.id = some p := hsound.get?_of_pieceAt? hp
    obtain ⟨w, hw, hle⟩ | ⟨-, hfresh | hlate⟩ :=
      (hconduct.trans (conduct_settle hsettle)).wears.tires p.id q hq
    · have hwalked : (m.board.modify p.id
          (·.walk (p.movesMade + start.distance goal) goal)).get? p.id = some w := hw
      rw [Board.get?_modify, hget] at hwalked
      simp only [Option.map_some, beq_self_eq_true, if_true, Option.some.injEq] at hwalked
      obtain rfl := hwalked
      exact hle
    · rw [hnone] at hfresh
      cases hfresh
    · exact absurd hold (Nat.not_le.2 hlate)

theorem walks_of_accepted {start goal : Hex} (hsound : m.board.Sound)
    (h : m.submitTraced depth c = .ok (m', trace)) (haccepted : m'.Accepted)
    (hmove : m.resumption? c = some (.movePiece start goal)) :
    ∃ p, m.Walks start goal m' trace p := by
  obtain ⟨hrefused, -⟩ | ⟨chosen, h⟩ := attempted_of_resumption h hmove
  · exact absurd haccepted.1 hrefused
  · exact h.walks hsound haccepted

/-! ### Treks -/

/-- A move, with the match before it. -/
structure Leg where
  before : Match
  start : Hex
  goal : Hex

namespace Leg

/-- The straight distance, which is what the move costs. -/
def span (l : Leg) : Nat := l.start.distance l.goal

/-- Whoever moves can get there in that many steps. -/
def Leads (l : Leg) (n : Nat) : Prop :=
  ∃ p, l.before.board.pieceAt? l.start = some p ∧ Hex.Path (l.before.enters p) l.start n l.goal

/-- How long the shortest path is. -/
def Shortest (l : Leg) (n : Nat) : Prop := IsLeast {k | l.Leads k} n

def Speed (l : Leg) (speed : Int) : Prop :=
  ∃ p, l.before.board.pieceAt? l.start = some p ∧ p.speed = .ok speed

/-- Nothing is in the way. -/
def Straight (l : Leg) : Prop := l.Leads l.span

/-- The paths are those of the object that stands where the move starts. -/
theorem shortest_iff {l : Leg} {p : Piece} {n : Nat}
    (hp : l.before.board.pieceAt? l.start = some p) :
    l.Shortest n ↔ IsLeast {k | Hex.Path (l.before.enters p) l.start k l.goal} n := by
  have hpaths : {k | l.Leads k} = {k | Hex.Path (l.before.enters p) l.start k l.goal} := by
    ext k
    refine ⟨fun ⟨q, hq, hpath⟩ => ?_, fun hpath => ⟨p, hp, hpath⟩⟩
    cases hp.symm.trans hq
    exact hpath
  rw [Shortest, hpaths]

theorem span_le {l : Leg} {n : Nat} (h : l.Leads n) : l.span ≤ n := by
  obtain ⟨p, -, hpath⟩ := h
  exact hpath.distance_le

theorem Shortest.eq_span {l : Leg} {n : Nat} (h : l.Shortest n) (hstraight : l.Straight) :
    n = l.span := Nat.le_antisymm (h.2 hstraight) (span_le h.1)

end Leg

/-- What the moves cost. -/
def charge (legs : List Leg) : Nat := (legs.map (·.span)).sum

/-- The moves of an object one after the other, among other commands, while no object is given its
moves back: no turn begins, and no object is let move once more. -/
inductive Treks (id : PieceId) (m : Match) : List Leg → Match → Prop where
  | rest : Treks id m [] m
  | idle {depth : Nat} {c : Command} {legs : List Leg} {m' m'' : Match} {trace : List Happening} :
    Treks id m legs m' → m'.submitTraced depth c = .ok (m'', trace) → ¬ m''.Accepted →
    Treks id m legs m''
  | apart {depth : Nat} {c : Command} {legs : List Leg} {m' m'' : Match}
    {trace : List Happening} : Treks id m legs m' → m'.submitTraced depth c = .ok (m'', trace) →
    m''.Accepted → refreshed trace = false → m'.exertion? c ≠ some (id, .move) →
    Treks id m legs m''
  | leg {depth : Nat} {c : Command} {legs : List Leg} {m' m'' : Match} {trace : List Happening}
    {start goal : Hex} : Treks id m legs m' → m'.submitTraced depth c = .ok (m'', trace) →
    m''.Accepted → refreshed trace = false → m'.resumption? c = some (.movePiece start goal) →
    m'.board.idAt? start = some id → Treks id m (legs ++ [⟨m', start, goal⟩]) m''

namespace Treks
variable {m'' : Match} {legs : List Leg}

theorem reachable (h : Treks id m legs m') (hm : m.Reachable) : m'.Reachable := by
  induction h with
  | rest => exact hm
  | idle _ h _ ih | apart _ h _ _ _ ih | leg _ h _ _ _ _ ih => exact ih.next h

end Treks

/-- The object has made moves of that length, and it is not still to come. -/
structure Charged (m : Match) (id : PieceId) (legs : List Leg) : Prop where
  made : ∀ q, m.board.get? id = some q → (charge legs : Int) ≤ q.movesMade
  known : legs ≠ [] → id ≤ m.lastId

theorem Charged.next {legs : List Leg} (hm : m.Charged id legs)
    (h : (⟨m, []⟩ : Stage).Wears ⟨m', trace⟩) (hnone : refreshed trace = false) :
    m'.Charged id legs := by
  refine ⟨fun q hq => ?_, fun hlegs => Nat.le_trans (hm.known hlegs) h.lastId⟩
  obtain ⟨p, hp, hle⟩ | ⟨hpos, hfresh | hnew⟩ := h.tires id q hq
  · exact Int.le_trans (hm.made p hp) hle
  · rw [hnone] at hfresh
    cases hfresh
  · have hempty : legs = [] := by
      by_contra hlegs
      exact absurd (hm.known hlegs) (Nat.not_le.2 hnew)
    rw [hempty]
    exact hpos

theorem Charged.repeats {legs : List Leg} (hm : m.Charged id legs) (h : m.Repeats m') :
    m'.Charged id legs := by
  obtain ⟨notices, rfl⟩ := h.told
  exact ⟨hm.made, hm.known⟩

theorem charge_append (legs : List Leg) (l : Leg) : charge (legs ++ [l]) = charge legs + l.span := by
  simp [charge]

/-- For every move the object was fast enough, with the straight distances of the moves before. -/
def Budgeted (legs : List Leg) : Prop := ∀ earlier l later, legs = earlier ++ l :: later →
  ∃ (speed : Int) (n : Nat), l.Speed speed ∧ l.Shortest n ∧ charge earlier + n ≤ speed

theorem Budgeted.concat {legs : List Leg} {l : Leg} {speed : Int} {n : Nat} (h : Budgeted legs)
    (hspeed : l.Speed speed) (hshortest : l.Shortest n) (hle : charge legs + n ≤ speed) :
    Budgeted (legs ++ [l]) := by
  intro earlier l' later heq
  obtain rfl | ⟨later, last, rfl⟩ := List.eq_nil_or_concat later
  · obtain ⟨rfl, hlast⟩ := List.append_inj' heq rfl
    cases hlast
    exact ⟨speed, n, hspeed, hshortest, hle⟩
  · rw [List.concat_eq_append, ← List.cons_append, ← List.append_assoc] at heq
    obtain ⟨rfl, -⟩ := List.append_inj' heq rfl
    exact h earlier l' later rfl

/-- One more move is charged, and the object was fast enough for it. -/
theorem Charged.leg {legs : List Leg} {start goal : Hex} (hm : m.Reachable)
    (hcharged : m.Charged id legs) (h : m.submitTraced depth c = .ok (m', trace))
    (haccepted : m'.Accepted) (hnone : refreshed trace = false)
    (hmove : m.resumption? c = some (.movePiece start goal)) (hid : m.board.idAt? start = some id) :
    m'.Charged id (legs ++ [⟨m, start, goal⟩]) ∧
      ∃ (speed : Int) (n : Nat), (⟨m, start, goal⟩ : Leg).Speed speed ∧
        (⟨m, start, goal⟩ : Leg).Shortest n ∧ charge legs + n ≤ speed := by
  obtain ⟨p, hwalks⟩ := walks_of_accepted hm.board_sound h haccepted hmove
  have hp := hwalks.mover
  obtain rfl : p.id = id := by
    rw [Board.idAt?, hp] at hid
    exact Option.some.inj hid
  have hget : m.board.get? p.id = some p := hm.board_sound.get?_of_pieceAt? hp
  have hmade := hcharged.made p hget
  have hknown : p.id ≤ m.lastId :=
    hm.numbered.le _ (List.mem_append_left _ (List.mem_map.2 ⟨_, Board.mem_of_get? hget, rfl⟩))
  refine ⟨⟨fun q hq => ?_, fun _ => Nat.le_trans hknown (wears_of_accepted h haccepted).lastId⟩, ?_⟩
  · have hcost := hwalks.charged hnone hknown q hq
    rw [charge_append]
    simp only [Leg.span]
    omega
  · obtain ⟨hexes, hhexes, hgoal⟩ := hwalks.reaches
    obtain ⟨speed, n, hspeed, hshortest, hle⟩ := exists_shortest_of_mem_movementHexes hp hhexes hgoal
    have hleast := (Leg.shortest_iff (l := ⟨m, start, goal⟩) hp).2 hshortest
    exact ⟨speed, n, ⟨p, hp, hspeed⟩, hleast, by omega⟩

theorem Treks.charged {legs : List Leg} (h : Treks id m legs m') (hm : m.Reachable) :
    m'.Charged id legs ∧ Budgeted legs := by
  induction h with
  | rest =>
    refine ⟨⟨fun q hq => hm.movesMade_nonneg hq, fun hlegs => absurd rfl hlegs⟩, ?_⟩
    intro earlier l later heq
    cases earlier <;> cases heq
  | idle _ h hnot ih =>
    obtain ⟨first, last, hundergoes⟩ := undergoes h
    exact ⟨ih.1.repeats (hundergoes.discarded hnot), ih.2⟩
  | apart _ h haccepted hnone _ ih => exact ⟨ih.1.next (wears_of_accepted h haccepted) hnone, ih.2⟩
  | leg hearlier h haccepted hnone hmove hid ih =>
    obtain ⟨hcharged, speed, n, hspeed, hshortest, hle⟩ :=
      ih.1.leg (hearlier.reachable hm) h haccepted hnone hmove hid
    exact ⟨hcharged, ih.2.concat hspeed hshortest hle⟩

/-- Who moves over other objects has nothing in the way. -/
theorem Walks.straight {start goal : Hex} {p : Piece} (hm : m.Reachable)
    (h : m.Walks start goal m' trace p) (hover : p.canMoveOverPieces = true) :
    Leg.Straight ⟨m, start, goal⟩ := by
  obtain ⟨hexes, hhexes, hgoal⟩ := h.reaches
  have hstart : start ∈ Hex.all := by
    obtain ⟨hmem, rfl⟩ := Board.mem_of_pieceAt? h.mover
    obtain ⟨e, he, rfl⟩ := List.mem_map.1 hmem
    exact (hm.board_occupancy.1 e he).2.1
  have hend : goal ∈ Hex.all :=
    Hex.mem_all_iff.2 ⟨(goal_of_mem_movementHexes hhexes hgoal).1,
      level_of_mem_movementHexes hm.level hhexes hgoal⟩
  exact ⟨p, h.mover, Hex.path_distance (fun a => by simp [enters, hover]) hstart hend⟩

theorem Treks.straight {legs : List Leg} (h : Treks id m legs m') (hm : m.Reachable) {l : Leg}
    (hl : l ∈ legs) {p : Piece} (hp : l.before.board.pieceAt? l.start = some p)
    (hover : p.canMoveOverPieces = true) : l.Straight := by
  induction h with
  | rest => cases hl
  | idle _ _ _ ih | apart _ _ _ _ _ ih => exact ih hl
  | leg hearlier h haccepted _ hmove _ ih =>
    obtain hold | hlast := List.mem_append.1 hl
    · exact ih hold
    · obtain rfl := List.mem_singleton.1 hlast
      have hreachable := hearlier.reachable hm
      obtain ⟨q, hwalks⟩ := walks_of_accepted hreachable.board_sound h haccepted hmove
      cases hp.symm.trans hwalks.mover
      exact hwalks.straight hreachable hover

theorem Leg.Speed.unique {l : Leg} {speed speed' : Int} (h : l.Speed speed) (h' : l.Speed speed') :
    speed = speed' := by
  obtain ⟨p, hp, hspeed⟩ := h
  obtain ⟨q, hq, hspeed'⟩ := h'
  cases hp.symm.trans hq
  cases hspeed.symm.trans hspeed'
  rfl

/-- Where nothing is in the way, the shortest paths are as long as what they cost. -/
theorem sum_eq_charge {legs : List Leg} {lengths : List Nat}
    (h : List.Forall₂ Leg.Shortest legs lengths) (hstraight : ∀ l ∈ legs, l.Straight) :
    lengths.sum = charge legs := by
  induction h with
  | nil => rfl
  | cons hshortest _ ih =>
    obtain ⟨hfirst, hrest⟩ := List.forall_mem_cons.1 hstraight
    rw [List.sum_cons, ih hrest, hshortest.eq_span hfirst]
    rfl

/-- Without detours before the last move, the shortest paths together are no longer than the object
is fast. -/
theorem Budgeted.sum_le {earlier : List Leg} {last : Leg} {lengths : List Nat} {speed : Int}
    (h : Budgeted (earlier ++ [last])) (hstraight : ∀ l ∈ earlier, l.Straight)
    (hlengths : List.Forall₂ Leg.Shortest (earlier ++ [last]) lengths) (hspeed : last.Speed speed) :
    (lengths.sum : Int) ≤ speed := by
  obtain ⟨speed', n, hspeed', hshortest, hle⟩ := h earlier last [] rfl
  obtain rfl := hspeed.unique hspeed'
  have hbefore := List.forall₂_take earlier.length hlengths
  have hafter := List.forall₂_drop earlier.length hlengths
  rw [List.take_left] at hbefore
  rw [List.drop_left] at hafter
  obtain ⟨k, hdrop, hlast⟩ : ∃ k, lengths.drop earlier.length = [k] ∧ last.Shortest k := by
    generalize lengths.drop earlier.length = after at hafter
    cases hafter with
    | cons hlast hnil =>
      cases hnil
      exact ⟨_, rfl, hlast⟩
  obtain rfl := hlast.unique hshortest
  rw [← List.take_append_drop earlier.length lengths, List.sum_append, hdrop,
    sum_eq_charge hbefore hstraight]
  simpa using hle

/-- For every move the object was fast enough, with the straight distances of the moves before. Who
moves over other objects makes no detours. And without detours before the last move, the object goes
no further in all its moves than it is fast. -/
theorem Treks.within_speed {legs : List Leg} (hm : m.Reachable) (h : Treks id m legs m') :
    Budgeted legs ∧
    (∀ l ∈ legs, ∀ p, l.before.board.pieceAt? l.start = some p → p.canMoveOverPieces = true →
      l.Straight) ∧
    ∀ earlier last lengths speed, legs = earlier ++ [last] → (∀ l ∈ earlier, l.Straight) →
      List.Forall₂ Leg.Shortest legs lengths → last.Speed speed → (lengths.sum : Int) ≤ speed := by
  have hbudget := (h.charged hm).2
  refine ⟨hbudget, fun l hl p hp hover => h.straight hm hl hp hover, ?_⟩
  rintro earlier last lengths speed rfl hstraight hlengths hspeed
  exact hbudget.sum_le hstraight hlengths hspeed

/-! ### A detour -/

/-- Whether whoever moves is that fast, and the shortest path is `n + 1` steps long. -/
def Leg.measures (l : Leg) (speed : Int) (n : Nat) : Bool :=
  (l.before.board.pieceAt? l.start).any fun p =>
    p.speed.holds (· == speed) &&
    (Hex.search (l.before.enters p) (n + 1) [l.start] [l.start]).contains l.goal &&
    !(Hex.search (l.before.enters p) n [l.start] [l.start]).contains l.goal

theorem Leg.of_measures {l : Leg} {speed : Int} {n : Nat} (h : l.measures speed n = true) :
    l.Speed speed ∧ l.Shortest (n + 1) := by
  obtain ⟨p, hp, h⟩ := (Option.any_eq_true _ _).1 h
  simp only [Bool.and_eq_true, Bool.not_eq_true', List.contains_eq_mem, decide_eq_true_eq,
    decide_eq_false_iff_not] at h
  obtain ⟨⟨hspeed, hfound⟩, hmiss⟩ := h
  obtain ⟨_, hright, heq⟩ := Outcome.exists_of_holds hspeed
  obtain rfl := eq_of_beq heq
  exact ⟨⟨p, hp, hright⟩, (shortest_iff hp).2 (Hex.isLeast_of_mem_search hfound hmiss)⟩

/-- Whether the object moves from cell to cell, after which the rest comes. -/
def moves (m : Match) (start goal : Hex) (speed : Int) (n : Nat) (rest : Match → Bool) : Bool :=
  (m.submitTraced maxDepth (.movePiece .blue start goal)).holds fun x =>
    (x.1.refusal.isNone && x.1.pending.isNone) && !refreshed x.2 && m.board.idAt? start == some 4 &&
    (⟨m, start, goal⟩ : Leg).measures speed n && rest x.1

theorem exists_leg_of_moves {start goal : Hex} {speed : Int} {n : Nat} {rest : Match → Bool}
    (h : m.moves start goal speed n rest = true) :
    ∃ m', (⟨m, start, goal⟩ : Leg).Speed speed ∧ (⟨m, start, goal⟩ : Leg).Shortest (n + 1) ∧
      (∀ m₀ legs, Treks 4 m₀ legs m → Treks 4 m₀ (legs ++ [⟨m, start, goal⟩]) m') ∧
      rest m' = true := by
  obtain ⟨⟨m', trace⟩, hmove, hmoved⟩ := Outcome.exists_of_holds h
  simp only [Bool.and_eq_true, Option.isNone_iff_eq_none, Bool.not_eq_true', beq_iff_eq] at hmoved
  obtain ⟨⟨⟨⟨haccepted, hnone⟩, hid⟩, hmeasures⟩, hrest⟩ := hmoved
  obtain ⟨hspeed, hshortest⟩ := Leg.of_measures hmeasures
  exact ⟨m', hspeed, hshortest,
    fun m₀ legs hearlier => hearlier.leg hmove haccepted hnone rfl hid, hrest⟩

/-- A robot with a speed of three, and a structure that stands in its way. -/
def obstructed : MatchSetup := .solo [.making .robot ⟨some 1, 1, some 3⟩,
  .making .building ⟨none, 1, none⟩, .moveAgain (.piecesInPlay (.only .robot))]

theorem obstructed_run : ∃ m₀ m₁ m₂ m₃, obstructed.start = .ok m₀ ∧
    m₀.submit .playSolo = .ok m₁ ∧ (∀ p ∈ m₁.board.pieces, p.triggers = []) ∧
    (⟨m₁, .axial (-3) 1, .axial (-3) 3⟩ : Leg).Speed 3 ∧
    (⟨m₁, .axial (-3) 1, .axial (-3) 3⟩ : Leg).Shortest 3 ∧
    (⟨m₂, .axial (-3) 3, .axial (-2) 2⟩ : Leg).Speed 3 ∧
    (⟨m₂, .axial (-3) 3, .axial (-2) 2⟩ : Leg).Shortest 1 ∧
    Treks 4 m₁ [⟨m₁, .axial (-3) 1, .axial (-3) 3⟩] m₂ ∧
    Treks 4 m₁ [⟨m₁, .axial (-3) 1, .axial (-3) 3⟩, ⟨m₂, .axial (-3) 3, .axial (-2) 2⟩] m₃ := by
  have hrun : (obstructed.start.holds fun m₀ => (m₀.submit .playSolo).holds fun m₁ =>
      m₁.board.pieces.all (·.triggers.isEmpty) &&
      m₁.moves (.axial (-3) 1) (.axial (-3) 3) 3 2 fun m₂ =>
        m₂.moves (.axial (-3) 3) (.axial (-2) 2) 3 0 fun _ => true) = true := by
    decide +kernel
  obtain ⟨m₀, hstart, hrun⟩ := Outcome.exists_of_holds hrun
  obtain ⟨m₁, hplay, hrun⟩ := Outcome.exists_of_holds hrun
  obtain ⟨hquiet, hrun⟩ := Bool.and_eq_true_iff.1 hrun
  obtain ⟨m₂, hspeed, hlength, hfirst, hrun⟩ := exists_leg_of_moves hrun
  obtain ⟨m₃, hspeed', hlength', hsecond, -⟩ := exists_leg_of_moves hrun
  refine ⟨m₀, m₁, m₂, m₃, hstart, hplay, fun p hp => ?_, hspeed, hlength, hspeed', hlength',
    hfirst m₁ [] .rest, hsecond m₁ _ (hfirst m₁ [] .rest)⟩
  exact List.isEmpty_iff.1 (List.all_eq_true.1 hquiet p hp)

/-- The robot makes a detour round the structure, and is as fast as that. -/
theorem Treks.within_speed_obstructed : ∃ m m', m.Reachable ∧
    Treks 4 m [⟨m, .axial (-3) 1, .axial (-3) 3⟩] m' ∧
    Budgeted [⟨m, .axial (-3) 1, .axial (-3) 3⟩] ∧ (([3] : List Nat).sum : Int) ≤ 3 := by
  obtain ⟨m₀, m, m', _, hstart, hplay, -, hspeed, hlength, -, -, htreks, -⟩ := obstructed_run
  have hm := (Reachable.start hstart).submit hplay
  obtain ⟨hbudget, -, hsum⟩ := htreks.within_speed hm
  exact ⟨m, m', hm, htreks, hbudget, hsum [] _ [3] 3 rfl (fun _ hl => nomatch hl)
    (.cons hlength .nil) hspeed⟩

/-- Having made the detour, the robot moves on, and goes further than it is fast. -/
theorem Treks.beyond_speed_obstructed : ∃ m₀ m m', obstructed.start = .ok m₀ ∧
    m₀.submit .playSolo = .ok m ∧ (∀ p ∈ m.board.pieces, p.triggers = []) ∧
    ∃ legs lengths speed, Treks 4 m legs m' ∧ List.Forall₂ Leg.Shortest legs lengths ∧
      (∀ l ∈ legs, l.Speed speed) ∧ ¬ (lengths.sum : Int) ≤ speed := by
  obtain ⟨m₀, m, m₁, m', hstart, hplay, hquiet, hspeed, hlength, hspeed', hlength', -, htreks⟩ :=
    obstructed_run
  refine ⟨m₀, m, m', hstart, hplay, hquiet, _, [3, 1], 3, htreks,
    .cons hlength (.cons hlength' .nil), ?_, by decide⟩
  exact List.forall_mem_cons.2 ⟨hspeed, List.forall_mem_cons.2 ⟨hspeed', fun _ hl => nomatch hl⟩⟩

end Match
end HexDuel
