import HexDuel.Proofs.BuiltCommands
import Mathlib.Logic.Relation

/-!
A resolution as a course of single steps. Whatever one step keeps, a resolution keeps: what it does
to the prompt, the refusal and the turn is read off the steps.
-/

set_option autoImplicit false

namespace HexDuel

/-- Whether an action has ended the turn. -/
def endsTurn (trace : List Happening) : Bool := trace.any (·.endsTurn)

/-- A single step. The last three end a turn: the first two in a resolution that may do so, or once
the action that ends the turn has been noted. -/
inductive Step (asks ends : Bool) (s : Stage) : Stage → Prop where
  | edit {f : Match → Match} : Edit f → Step asks ends s ⟨f s.game, s.trace⟩
  | note (h : Happening) : h.isPlain = true → Step asks ends s ⟨s.game, h :: s.trace⟩
  | number : Step asks ends s
      ⟨{ s.game with lastId := s.game.lastId + 1 }, .numbered (s.game.lastId + 1) :: s.trace⟩
  | walk (id : PieceId) (made : Int) {start goal : Hex} {hexes : List Hex} :
    s.game.movementHexes start = .ok hexes → goal ∈ hexes →
    Step asks ends s ⟨s.game.changePiece id (·.walk made goal), s.trace⟩
  | consult {c : Collection} {ctx : Context} {x : Collection × Context} {s' : Stage} :
    asks = true → Resolving.Consulted c ctx s x s' → Step asks ends s s'
  | leave (c : Color) : ends = true ∨ endsTurn s.trace = true →
    Step asks ends s ⟨(s.game.setSelection c .none).setStatus c "", .turnEnded c :: s.trace⟩
  | handOver (c : Color) : ends = true ∨ endsTurn s.trace = true →
    Step asks ends s ⟨{ s.game with turn := c }, s.trace⟩
  | ending : Step asks ends s ⟨s.game, .executed .endTurn :: s.trace⟩

def Steps (asks ends : Bool) : Stage → Stage → Prop := Relation.ReflTransGen (Step asks ends)

variable {asks ends : Bool} {s s' : Stage}

theorem Step.trace_suffix (h : Step asks ends s s') : s.trace <:+ s'.trace := by
  cases h with
  | edit | walk | handOver => exact List.suffix_rfl
  | note | number | leave | ending => exact List.suffix_cons _ _
  | consult _ hc =>
    cases hc with
    | answered | suspended => exact List.suffix_cons _ _
    | waiting | refused => exact List.suffix_rfl

/-- What has happened by some time has happened ever since. -/
theorem any_of_suffix {test : Happening → Bool} {xs ys : List Happening} (h : xs <:+ ys)
    (hx : xs.any test = true) : ys.any test = true := by
  obtain ⟨a, ha, htest⟩ := List.any_eq_true.1 hx
  exact List.any_eq_true.2 ⟨a, h.subset ha, htest⟩

theorem any_eq_false_of_suffix {test : Happening → Bool} {xs ys : List Happening} (h : xs <:+ ys)
    (hy : ys.any test = false) : xs.any test = false :=
  List.any_eq_false.2 fun x hx => List.any_eq_false.1 hy x (h.subset hx)

namespace Steps

theorem refl (s : Stage) : Steps asks ends s s := Relation.ReflTransGen.refl

theorem single (h : Step asks ends s s') : Steps asks ends s s' := Relation.ReflTransGen.single h

theorem trans {s'' : Stage} (h : Steps asks ends s s') (h' : Steps asks ends s' s'') :
    Steps asks ends s s'' := Relation.ReflTransGen.trans h h'

/-- What every step keeps is kept throughout. -/
theorem keeps {I : Stage → Prop} (hstep : ∀ s s', Step asks ends s s' → I s → I s')
    (h : Steps asks ends s s') (hs : I s) : I s' := by
  induction h with
  | refl => exact hs
  | tail _ hlast ih => exact hstep _ _ hlast ih

/-- What every step keeps as long as no action has ended the turn is kept for as long. -/
theorem keeps_quiet {I : Stage → Prop}
    (hstep : ∀ s s', Step asks ends s s' → endsTurn s'.trace = false → I s → I s')
    (h : Steps asks ends s s') (hquiet : endsTurn s'.trace = false) (hs : I s) : I s' := by
  induction h with
  | refl => exact hs
  | tail _ hlast ih =>
    exact hstep _ _ hlast hquiet (ih (any_eq_false_of_suffix hlast.trace_suffix hquiet))

theorem trace_suffix (h : Steps asks ends s s') : s.trace <:+ s'.trace := by
  induction h with
  | refl => exact List.suffix_rfl
  | tail _ hlast ih => exact ih.trans hlast.trace_suffix

/-- Once the action that ends the turn is noted, turns may end. -/
theorem after_ending (h : Steps asks true s s') (hs : endsTurn s.trace = true) :
    Steps asks ends s s' := by
  induction h with
  | refl => exact refl s
  | tail hfirst hlast ih =>
    -- The note stays in the trace, so the last step finds it, too.
    have hends := any_of_suffix (trace_suffix hfirst) hs
    refine ih.trans (single ?_)
    cases hlast with
    | edit hf => exact .edit hf
    | note h hplain => exact .note h hplain
    | number => exact .number
    | walk id made hm hg => exact .walk id made hm hg
    | consult ha hc => exact .consult ha hc
    | leave c => exact .leave c (.inr hends)
    | handOver c => exact .handOver c (.inr hends)
    | ending => exact .ending

end Steps

namespace Play

theorem of_run_lift {α : Type} {x : Outcome α} {a : α}
    (h : (liftM x : Play α).run s = .ok (a, s')) : x = .ok a ∧ s' = s := by
  cases x with
  | error f => cases h
  | ok a => cases h; exact ⟨rfl, rfl⟩

theorem run_freshId (s : Stage) :
    freshId.run s =
      if s.game.lastId + 1 < Width.end64 then
        .ok (s.game.lastId + 1, ⟨{ s.game with lastId := s.game.lastId + 1 },
          .numbered (s.game.lastId + 1) :: s.trace⟩)
      else .error .overflow := by
  have hrun : freshId.run s =
      ((if s.game.lastId + 1 < Width.end64 then do
          change fun m => { m with lastId := s.game.lastId + 1 }
          note (.numbered (s.game.lastId + 1))
          return s.game.lastId + 1
        else throw .overflow : Play Nat)).run s := rfl
  rw [hrun]
  split <;> rfl

theorem run_walk (id : PieceId) (start goal : Hex) (s : Stage) :
    (Attempt.walk id start goal).run s =
      match s.game.movementHexes start with
      | .error f => .error f
      | .ok hexes =>
        if hexes.contains goal then
          match s.game.board.get? id with
          | none => .ok (true, s)
          | some p =>
            match Outcome.int32 (p.movesMade + start.distance goal) with
            | .error f => .error f
            | .ok made => .ok (true, ⟨s.game.changePiece id (·.walk made goal), s.trace⟩)
        else .ok (false, s) := by
  have hrun : (Attempt.walk id start goal).run s = (do
      let hexes ← s.game.movementHexes start
      if hexes.contains goal then
        match s.game.board.get? id with
        | none => return true
        | some p => do
          let made ← Outcome.int32 (p.movesMade + start.distance goal)
          Play.change (·.changePiece id (·.walk made goal))
          return true
      else return false : Play Bool).run s := rfl
  rw [hrun, StateT.run_bind]
  cases s.game.movementHexes start with
  | error f => rfl
  | ok hexes =>
    have hnext : (liftM (.ok hexes : Outcome (List Hex)) : Play (List Hex)).run s =
        .ok (hexes, s) := rfl
    rw [hnext]
    dsimp only [bind, Except.bind]
    split
    · cases s.game.board.get? id with
      | none => rfl
      | some p =>
        dsimp only
        cases Outcome.int32 (p.movesMade + start.distance goal) <;> rfl
    · rfl

/-- What an attempt at a walk comes to. Where the goal can be reached the object stands there in the
end, if it is on the board, and has made the straight distance more moves. -/
inductive Walked (id : PieceId) (start goal : Hex) (s : Stage) : Bool → Stage → Prop where
  | barred {hexes : List Hex} : s.game.movementHexes start = .ok hexes → goal ∉ hexes →
    Walked id start goal s false s
  | gone {hexes : List Hex} : s.game.movementHexes start = .ok hexes → goal ∈ hexes →
    s.game.board.get? id = none → Walked id start goal s true s
  | walked {hexes : List Hex} {p : Piece} : s.game.movementHexes start = .ok hexes →
    goal ∈ hexes → s.game.board.get? id = some p → Walked id start goal s true
      ⟨s.game.changePiece id (·.walk (p.movesMade + start.distance goal) goal), s.trace⟩

theorem Walked.goal {id : PieceId} {start goal : Hex} (h : Walked id start goal s true s') :
    ∃ hexes, s.game.movementHexes start = .ok hexes ∧ goal ∈ hexes := by
  cases h with
  | gone hhexes hgoal | walked hhexes hgoal => exact ⟨_, hhexes, hgoal⟩

theorem Walked.animations {id : PieceId} {start goal : Hex} {a : Bool}
    (h : Walked id start goal s a s') : s'.game.animations = s.game.animations := by
  cases h <;> rfl

theorem walked_of_run {id : PieceId} {start goal : Hex} {a : Bool}
    (h : (Attempt.walk id start goal).run s = .ok (a, s')) : Walked id start goal s a s' := by
  rw [run_walk] at h
  split at h
  · cases h
  · rename_i hexes hhexes
    split at h
    · rename_i hgoal
      have hgoal : goal ∈ hexes := by simpa using hgoal
      split at h
      · rename_i hnone
        cases h
        exact .gone hhexes hgoal hnone
      · rename_i p hp
        split at h
        · cases h
        · rename_i made hmade
          obtain rfl := (Outcome.int32_eq_ok_iff.1 hmade).1
          cases h
          exact .walked hhexes hgoal hp
    · rename_i hgoal
      cases h
      exact .barred hhexes (by simpa using hgoal)

/-- A built computation that ends well goes by steps. -/
theorem Built.steps {α : Type} {p : Play α} {a : α} (hp : Built asks ends p)
    (h : p.run s = .ok (a, s')) : Steps asks ends s s' := by
  induction hp generalizing s s' with
  | lift x =>
    obtain ⟨_, rfl⟩ := of_run_lift h
    exact .refl s'
  | bind _ _ ihp ihk =>
    obtain ⟨a, s₁, hp, hk⟩ := run_bind h
    exact (ihp hp).trans (ihk a ⟨s, s₁, hp⟩ hk)
  | look _ _ ih => exact ih s.game h
  | edit hf =>
    cases h
    exact .single (.edit hf)
  | note n hplain =>
    cases h
    exact .single (.note n hplain)
  | number =>
    rw [run_freshId] at h
    split at h
    · cases h
      exact .single .number
    · cases h
  | walk id start goal =>
    cases walked_of_run h with
    | barred | gone => exact .refl s
    | walked hhexes hgoal => exact .single (.walk id _ hhexes hgoal)
  | consult c ctx hasks => exact .single (.consult hasks (Resolving.consulted h))
  | leave c =>
    cases h
    exact .single (.leave c (.inl rfl))
  | handOver c =>
    cases h
    exact .single (.handOver c (.inl rfl))
  | ending _ ih =>
    have hsteps := ih (s := ⟨s.game, .executed .endTurn :: s.trace⟩) h
    exact (Steps.single .ending).trans (hsteps.after_ending rfl)

end Play
end HexDuel
