import HexDuel.Proofs.Leftovers
import HexDuel.Proofs.Turns

/-!
What bears on who may act, in the order in which it happens: objects come or change sides, turns
begin, and objects do what they have been asked to do. All that is done goes by strides, each of
which is one of these or lets every object go on as it was.
-/

set_option autoImplicit false

namespace HexDuel

/-- What an object that has done the one has to wait for. -/
def Exertion.costs : Exertion → Exertion → Bool
  | .move, _ => false
  | .attack, x => x != .activate
  | .activate, _ => true

inductive Event where
  /-- The object has come to the board or changed sides. -/
  | joined (id : PieceId)
  /-- A turn of the player has begun, with that board. -/
  | began (player : Color) (board : Board)
  /-- The object has done what it was asked to do. -/
  | did (id : PieceId) (x : Exertion)

/-- Whose turn has begun. -/
def Event.beginner? : Event → Option Color
  | .began c _ => some c
  | _ => none

namespace Stage
variable {s s' s'' : Stage}

/-- Whatever has happened, no turn has begun. -/
structure Dwells (s s' : Stage) : Prop where
  later : s.trace <:+ s'.trace
  turns : turns s'.trace = turns s.trace

theorem Dwells.of_timely (h : s.Timely s') (hlater : s.trace <:+ s'.trace) : s.Dwells s' :=
  ⟨hlater, by rw [← turns_tolls, h.tolls, turns_tolls]⟩

/-- The object has come or changed sides, and has to wait for everything; all others go on. -/
def Joins (s : Stage) (id : PieceId) (s' : Stage) : Prop :=
  ∀ k q, s'.game.board.get? k = some q → k = id ∧ (∀ x, q.bars x = true) ∨
    k ≠ id ∧ ∃ p, s.game.board.get? k = some p ∧ p.GoesOn (pardons s'.trace) q

/-- No object comes or changes sides. One has to wait for what the exertion costs, and beside that
none has to wait for more or less than before, unless one has been let act once more. -/
def Does (s : Stage) (id : PieceId) (x : Exertion) (s' : Stage) : Prop :=
  ∀ k q, s'.game.board.get? k = some q → ∃ p, s.game.board.get? k = some p ∧ q.owner = p.owner ∧
    (pardons s'.trace = false → ∀ y, q.bars y = (k == id && x.costs y || p.bars y))

/-- No stride lets an object come, change sides or begin a turn without an event that says so. -/
inductive Stride (s : Stage) : List Event → Stage → Prop where
  | goesOn {s' : Stage} : s.Dwells s' → s.GoesOn s' → Stride s [] s'
  | joins (id : PieceId) {s' : Stage} : s.Dwells s' → s.Joins id s' → Stride s [.joined id] s'
  | begins (total : Int) : Stride s [.began s.game.turn s.game.board] (s.beginTurn total)
  | does (id : PieceId) (x : Exertion) {s' : Stage} : s.Dwells s' → s.Does id x s' →
    Stride s [.did id x] s'

theorem Stride.later {events : List Event} (h : s.Stride events s') : s.trace <:+ s'.trace := by
  cases h with
  | goesOn hdwells | joins _ hdwells | does _ _ hdwells => exact hdwells.later
  | begins => exact List.suffix_cons _ _

theorem Stride.turns {events : List Event} (h : s.Stride events s') :
    HexDuel.turns s'.trace = events.filterMap (·.beginner?) ++ HexDuel.turns s.trace := by
  cases h with
  | goesOn hdwells | joins _ hdwells | does _ _ hdwells => exact hdwells.turns
  | begins => rfl

/-- Strides one after the other, with their events, last first. -/
inductive Passage (s : Stage) : List Event → Stage → Prop where
  | refl : Passage s [] s
  | next {events later : List Event} {s' s'' : Stage} : Passage s events s' →
    s'.Stride later s'' → Passage s (later ++ events) s''

namespace Passage
variable {events : List Event}

theorem single (h : s.Stride events s') : s.Passage events s' := by
  have hone := Passage.next .refl h
  rwa [List.append_nil] at hone

theorem trans {events' : List Event} (h : s.Passage events s') (h' : s'.Passage events' s'') :
    s.Passage (events' ++ events) s'' := by
  induction h' with
  | refl => exact h
  | next _ hlast ih =>
    rw [List.append_assoc]
    exact ih.next hlast

theorem turns (h : s.Passage events s') :
    HexDuel.turns s'.trace = events.filterMap (·.beginner?) ++ HexDuel.turns s.trace := by
  induction h with
  | refl => rfl
  | next _ hlast ih => rw [hlast.turns, ih, List.filterMap_append, List.append_assoc]

end Passage

/-- What happens on the way is not told here. -/
def Passes (s s' : Stage) : Prop := ∃ events, s.Passage events s'

namespace Passes

theorem refl (s : Stage) : s.Passes s := ⟨[], .refl⟩

theorem trans (h : s.Passes s') (h' : s'.Passes s'') : s.Passes s'' := by
  obtain ⟨events, h⟩ := h
  obtain ⟨later, h'⟩ := h'
  exact ⟨later ++ events, h.trans h'⟩

theorem of_goesOn (hdwells : s.Dwells s') (hgoes : s.GoesOn s') : s.Passes s' :=
  ⟨[], .single (.goesOn hdwells hgoes)⟩

/-- A match that tells the same and has the same board. -/
theorem map {f : Match → Match} (h : (f s.game).board = s.game.board) : s.Passes (s.map f) :=
  of_goesOn ⟨List.suffix_rfl, rfl⟩ (.of_board h)

end Passes

/-! ### Objects that join -/

theorem stride_place {card : Card} {hex : Hex} {owner : Color} {justPlayed : Bool}
    (htakes : s.Takes hex) :
    s.Stride [.joined (s.game.lastId + 1)] (s.place card hex owner justPlayed) := by
  refine .joins _ ⟨List.suffix_cons _ _, rfl⟩ fun k q hq => ?_
  obtain ⟨rfl, rfl⟩ | hold := Board.get?_enter hq
  · exact .inl ⟨rfl, fun x => by cases x <;> rfl⟩
  · refine .inr ⟨?_, q, hold, .refl q⟩
    rintro rfl
    have hold : s.game.board.get? (s.game.lastId + 1) = some q := hold
    have hunused := htakes.unused
    rw [Board.contains, hold] at hunused
    cases hunused

theorem passes_takeControl (s : Stage) (owner : Color) (id : PieceId) :
    s.Passes (s.map (Resolving.takeControl owner id)) := by
  change s.Passes ⟨Resolving.takeControl owner id s.game, s.trace⟩
  unfold Resolving.takeControl
  split
  · exact .refl s
  · split
    · exact .refl s
    · refine ⟨[.joined id], .single (.joins id ⟨List.suffix_rfl, rfl⟩ fun k q hq => ?_)⟩
      have hget : (s.game.board.modify id (·.joining owner)).get? k = some q := hq
      rw [Board.get?_modify] at hget
      obtain ⟨p, hp, rfl⟩ := Option.map_eq_some_iff.1 hget
      by_cases hk : k = id
      · rw [if_pos (by simpa using hk)]
        exact .inl ⟨hk, fun x => by cases x <;> rfl⟩
      · rw [if_neg (by simpa using hk)]
        exact .inr ⟨hk, p, hp, .refl p⟩

/-- Who is marked as having done it has to wait for what that costs. -/
theorem stride_mark (s : Stage) (id : PieceId) {x : Exertion} {f : Piece → Piece}
    (hmarks : x.Marks f) : s.Stride [.did id x] (s.map (·.changePiece id f)) := by
  refine .does id x ⟨List.suffix_rfl, rfl⟩ fun k q hq => ?_
  have hget : (s.game.board.modify id f).get? k = some q := hq
  rw [Board.get?_modify] at hget
  obtain ⟨p, hp, rfl⟩ := Option.map_eq_some_iff.1 hget
  refine ⟨p, hp, ?_, fun _ y => ?_⟩
  · split
    · cases hmarks <;> rfl
    · rfl
  · cases hk : k == id with
    | true => cases hmarks <;> cases y <;> rfl
    | false => rfl

/-- Who moves pays nothing, and neither does who is gone. -/
theorem stride_free (s : Stage) (id : PieceId) (x : Exertion)
    (hfree : x = .move ∨ s.game.board.get? id = none) : s.Stride [.did id x] s := by
  refine .does id x ⟨List.suffix_rfl, rfl⟩ fun k q hq => ⟨q, hq, rfl, fun _ y => ?_⟩
  obtain rfl | hgone := hfree
  · rw [Exertion.costs, Bool.and_false, Bool.false_or]
  · have hk : k ≠ id := by
      rintro rfl
      cases hgone.symm.trans hq
    rw [beq_eq_false_iff_ne.2 hk]
    rfl

theorem Delays.passes (h : s.Delays s') : s.Passes s' := by
  cases h with
  | takeControl owner id => exact passes_takeControl s owner id
  | exert id hmarks => exact ⟨_, .single (s.stride_mark id hmarks)⟩

theorem Begins.passes (h : s.Begins s') : s.Passes s' := by
  cases h with
  | closed => exact .refl s
  | begun => exact ⟨_, .single (.begins _)⟩

theorem Lands.passes (h : s.Lands s') : s.Passes s' := by
  obtain @⟨player, id, card, _, hex, -, htakes, -⟩ := h
  have hdropped : s.Passes (s.map (·.dropFromHand player id)) := .map rfl
  exact hdropped.trans ⟨_, .single (stride_place ⟨htakes.onBoard, htakes.free, htakes.unused⟩)⟩

end Stage

/-! ### Conduct by strides -/

variable {s s' : Stage}

theorem Conduct.passes (h : Conduct s s') : s.Passes s' := by
  have hwhole : ∀ {s s' : Stage}, Deeds s s' → s.Timely s' → s.GoesOn s' → s.Passes s' :=
    fun hdeeds htimely => .of_goesOn (.of_timely htimely hdeeds.steps.trace_suffix)
  induction h with
  | refl s => exact .refl s
  | trans _ _ ih ih' => exact ih.trans ih'
  | errand h hfrugal hgoes => exact hwhole (.single h.deed) hfrugal.timely hgoes
  | delay h => exact h.passes
  | fund => exact .map rfl
  | reapply h =>
    have htended := Play.goes_reapply _ _ _ h
    exact hwhole (deeds_of_tended htended) (frugal_of_tended htended).timely (.of_tended htended)
  | install id sentence duration h =>
    have htended := Play.goes_grant _ _ _ _ _ _ _ h
    exact hwhole (deeds_of_tended htended) (frugal_of_tended htended).timely (.of_tended htended)
  | condemn id =>
    exact .of_goesOn ⟨List.suffix_rfl, rfl⟩
      (.piece id (f := (·.condemn)) fun _ => .of_eq rfl rfl rfl)
  | @destroy _ p _ _ _ _ _ _ hdooms _ hburied ih =>
    have hbegun := hwhole (hdooms.deeds p.card) (hdooms.timely p.card) (hdooms.goesOn p.card)
    exact hbegun.trans (ih.trans (hwhole hburied.deeds hburied.frugal.timely hburied.goesOn))
  | @giveBack id p s mid h =>
    have hfrugal := h.frugal.trans (mid.frugal_returned p.owner p.card.reset)
    exact hwhole (.single (.giveBack h.removed)) hfrugal.timely h.goesOn_returned
  | spawn _ hresolve _ hinquired htakes =>
    have hfound := (Resolving.inquired_of_resolve hresolve).trans hinquired
    have hpassed := hwhole (deeds_of_inquired hfound) (frugal_of_inquired hfound).timely
      (.of_board (board_of_inquired hfound))
    exact hpassed.trans ⟨_, .single (Stage.stride_place htakes)⟩
  | @pass s ended _ _ _ hbegins ih =>
    have hretired : s.Passes s.retire :=
      .of_goesOn ⟨List.suffix_cons _ _, rfl⟩ s.goesOn_retire
    have hhanded : ended.Passes (ended.handOver s.game.turn.opponent) :=
      .map (Match.board_checkVictory ended.game)
    exact hretired.trans (ih.trans (hhanded.trans hbegins.passes))

theorem Venture.passes (h : Venture s s') : s.Passes s' := by
  cases h with
  | conduct h => exact h.passes
  | @piece _ placed settled _ hpaid hlands hsettled h =>
    have harrived := (settled.conduct_arrived placed).passes
    exact hpaid.passes.trans (hlands.passes.trans (hsettled.passes.trans (harrived.trans h.passes)))
  | @event player id resolved shelved _ hresolved hshelved h =>
    have hbegun : s.Passes (s.resolving true) := .map rfl
    have hput : resolved.Passes shelved := by
      cases hshelved with
      | gone => exact .refl resolved
      | spent => exact .map rfl
    have hended : shelved.Passes (shelved.resolving false) := .map rfl
    exact hbegun.trans (hresolved.passes.trans (hput.trans (hended.trans h.passes)))

end HexDuel
