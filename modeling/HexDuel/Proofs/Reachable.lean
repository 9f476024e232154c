import HexDuel.Proofs.Occupancy
import HexDuel.Proofs.Submitted
import HexDuel.Setup

/-!
The matches that can come about, and the steps by which commands bring them about. The
board of such a match is sound.
-/

set_option autoImplicit false

namespace HexDuel

namespace Match

/-- A match that was set up and came this far by commands, whatever became of them. -/
inductive Reachable : Match → Prop where
  | start {s : MatchSetup} {m : Match} : s.start = .ok m → Reachable m
  | next {depth : Nat} {m m' : Match} {c : Command} {trace : List Happening} : Reachable m →
    m.submitTraced depth c = .ok (m', trace) → Reachable m'

theorem Reachable.submit {m m' : Match} {c : Command} (hm : m.Reachable)
    (h : m.submit c = .ok m') : m'.Reachable := by
  unfold Match.submit at h
  cases hs : m.submitTraced maxDepth c with
  | error f => rw [hs] at h; cases h
  | ok x =>
    rw [hs] at h
    cases h
    exact hm.next hs

/-! ### Attempts go by steps -/

variable {depth : Nat} {m m' : Match} {player : Color} {resumption : Resumption}
  {chosen : List Choice} {trace : List Happening}

theorem steps_perform {x : Except Rejection Unit} {st st' : Stage}
    (h : (Attempt.perform (Play.runner depth) player resumption).run.run st = .ok (x, st')) :
    Steps true false st st' :=
  (Attempt.built_perform (Play.built_runner true depth) player resumption).1.steps h

theorem steps_settle {st st' : Stage}
    (h : (Play.settle (Play.runner depth)).run st = .ok ((), st')) : Steps false false st st' :=
  (Play.built_settle (Play.built_runner false depth)).steps h

theorem steps_endOfTurn {st st' : Stage}
    (h : (do
      Play.passTurn (Play.runner depth)
      Play.settle (Play.runner depth) : Play Unit).run st = .ok ((), st')) :
    Steps false true st st' := by
  have hrun := Play.built_runner false depth
  exact ((Play.built_passTurn hrun).next fun _ => Play.built_settle hrun).steps h

/-- Nobody is asked anything before the command begins. -/
theorem recorded_scratch : Recorded player (m.scratch player chosen) := by
  have hsel : ((m.scratch player chosen).game.seat player).selection = .answering chosen :=
    selection_setSelection_self m player _
  refine ⟨?_, ?_⟩
  · rw [hsel]
    rfl
  · rw [hsel]
    exact fun h => nomatch h

theorem Attempted.board_sound (h : Attempted depth m player resumption chosen m' trace)
    (hm : m.board.Sound) : m'.board.Sound := by
  have habandon : ∀ r, (m.abandon player r).board = m.board := by
    intro r
    unfold abandon
    split <;> rfl
  cases h with
  | rejected r => rwa [habandon]
  | refused r => rwa [habandon]
  | suspended => exact hm
  | carried hrun _ _ hsettle =>
    exact (steps_settle hsettle).sound ((steps_perform hrun).sound hm)

theorem Submitted.board_sound {c : Command} (h : Submitted depth m c m' trace)
    (hm : m.board.Sound) : m'.board.Sound := by
  cases h with
  | early => exact hm
  | started _ _ _ _ h => exact h.board_sound hm
  | answered _ _ _ _ _ h => exact h.board_sound hm
  | passed _ _ _ _ hrun => exact (steps_endOfTurn hrun).sound hm

end Match

namespace MatchSetup

theorem sound_openingBoard (health : Int) : (openingBoard health).Sound := by
  have hhex : ∀ owner id, (core owner id health).hex = owner.coreHex := fun _ _ => rfl
  have hid : ∀ owner id, (core owner id health).id = id := fun _ _ => rfl
  refine ⟨?_, ?_, ?_⟩
  · simp [openingBoard, hid]
  · simp only [openingBoard, List.forall_mem_cons, hhex]
    decide
  · simp only [openingBoard, List.pairwise_cons, List.forall_mem_cons, hhex, List.Pairwise.nil,
      and_true]
    decide

/-- Only hands and decks change while the first cards are dealt. -/
theorem start_eq {s : MatchSetup} {m : Match} (h : s.start = .ok m) :
    m = (Color.all.foldl (fun m c => Play.drawTimes c s.limits.startingHandSize m)
      s.tableOf).changeSeat .blue fun seat => { seat with energy := ⟨1, 1⟩ } := by
  unfold start at h
  cases hcheck : s.check with
  | error f => rw [hcheck] at h; cases h
  | ok =>
    rw [hcheck] at h
    cases h
    rfl

theorem board_start {s : MatchSetup} {m : Match} (h : s.start = .ok m) :
    m.board = openingBoard s.limits.coreHealth := by
  rw [start_eq h]
  exact Match.board_foldl (fun c m => Match.board_drawTimes c _ m) Color.all s.tableOf

/-- A match starts with the two cores on the board, and nothing else. -/
theorem core_of_start {s : MatchSetup} {m : Match} (h : s.start = .ok m) {id : PieceId} {p : Piece}
    (hp : m.board.get? id = some p) :
    id = 1 ∧ p = core .blue 1 s.limits.coreHealth ∨
      id = 2 ∧ p = core .orange 2 s.limits.coreHealth := by
  have hmem := Board.mem_of_get? hp
  rw [board_start h, openingBoard] at hmem
  simpa only [List.mem_cons, Prod.mk.injEq, List.not_mem_nil, or_false] using hmem

theorem notices_start {s : MatchSetup} {m : Match} (h : s.start = .ok m) :
    m.notices = s.tableOf.notices := by
  have hsilent : Match.Silent fun m => (Color.all.foldl
      (fun m c => Play.drawTimes c s.limits.startingHandSize m) m).changeSeat .blue
        fun seat => { seat with energy := ⟨1, 1⟩ } :=
    (Match.Silent.foldl (fun c => Match.silent_drawTimes c _) Color.all).comp
      (Match.silent_changeSeat .blue fun _ _ _ => rfl)
  rw [start_eq h]
  exact hsilent.notices s.tableOf

end MatchSetup

namespace Match

theorem Reachable.board_sound {m : Match} (hm : m.Reachable) : m.board.Sound := by
  induction hm with
  | start h =>
    rw [MatchSetup.board_start h]
    exact MatchSetup.sound_openingBoard _
  | next _ h ih => exact (submitted h).board_sound ih

end Match
/-! ### Small matches -/

/-- Whether the outcome is a value of that kind. -/
def Outcome.holds {α : Type} (x : Outcome α) (test : α → Bool) : Bool :=
  match x with
  | .ok a => test a
  | .error _ => false

theorem Outcome.exists_of_holds {α : Type} {x : Outcome α} {test : α → Bool}
    (h : x.holds test = true) : ∃ a, x = .ok a ∧ test a = true := by
  cases x with
  | ok a => exact ⟨a, rfl, h⟩
  | error f => cases h

theorem Outcome.exists_of_bind {α β : Type} {x : Outcome α} {k : α → Outcome β} {b : β}
    (h : x >>= k = .ok b) : ∃ a, x = .ok a ∧ k a = .ok b := by
  cases x with
  | error f => cases h
  | ok a => exact ⟨a, rfl, h⟩

/-- Blue brings a single event, which costs nothing, and orange brings no card. -/
def MatchSetup.solo (actions : List Action) : MatchSetup where
  usernames := ⟨"blue", "orange"⟩
  decks := {
    blue := [{
      id := "event", name := "Event", type := .event, baseCost := 0, cost := 0, stats := none,
      text := "", sentences := [.actions actions], origin := .builtin, costAdjustments := [] }]
    orange := [] }
  format := .normal
  limits := .standard
  seed := none
  viewpoint := .blue

/-- An action that puts a made object on a free cell. -/
def Action.making (type : CardType) (stats : Stats) : Action :=
  .spawnPiece (.generateCard type stats none) (.tilesMatching [.unoccupied]) .selfPlayer

/-- An action that has all objects of that kind hold a lasting ability. -/
def Action.giving (types : TypeQuery) (targets : Target) (effect : PassiveEffect) : Action :=
  .giveAbility (.piecesInPlay types) (.setAbility ⟨targets, effect, none⟩) none

/-- Blue plays it. -/
def Command.playSolo : Command := .playCard .blue "blue/event" none

end HexDuel
