import HexDuel.Resolution

/-!
What becomes of a choice that a player is asked for, case by case.
-/

set_option autoImplicit false

namespace HexDuel.Resolving

theorem chosen_offer (b : Board) (c : Collection) : (offer b c).chosen = [] := by cases c <;> rfl

theorem choosing_offer (b : Board) (c : Collection) : (offer b c).choosing = true := by
  cases c <;> rfl

/-- The four ends of a choice: the player has named something, a prompt stands already, there is
nothing to name, or the player is asked. -/
inductive Consulted (c : Collection) (ctx : Context) (st : Stage) :
    Collection × Context → Stage → Prop where
  | answered (choice : Choice) (later : List Choice) :
    (st.game.seat st.game.turn).selection.chosen = choice :: later →
    Consulted c ctx st
      (named st.game c choice, { ctx with it := (salientOf (named st.game c choice)).or ctx.it })
      ⟨st.game.setSelection st.game.turn
          { (st.game.seat st.game.turn).selection with chosen := later },
        .answered st.game.turn choice c (named st.game c choice) st.game.board :: st.trace⟩
  | waiting :
    (st.game.seat st.game.turn).selection.chosen = [] →
    (st.game.seat st.game.turn).selection.choosing = true →
    Consulted c ctx st (c.emptied, ctx) st
  | refused :
    (st.game.seat st.game.turn).selection.chosen = [] →
    (st.game.seat st.game.turn).selection.choosing = false →
    (offer st.game.board c).hexes = [] → (offer st.game.board c).cards = [] →
    Consulted c ctx st (c.emptied, ctx)
      { st with game := { st.game with refusal := some .noValidTargets } }
  | suspended :
    (st.game.seat st.game.turn).selection.chosen = [] →
    (st.game.seat st.game.turn).selection.choosing = false →
    (offer st.game.board c).hexes ≠ [] ∨ (offer st.game.board c).cards ≠ [] →
    Consulted c ctx st (c.emptied, ctx)
      ⟨st.game.setSelection st.game.turn (offer st.game.board c),
        .suspended st.game.turn c st.game.board :: st.trace⟩

/-- The stage after a player has been asked. -/
def asked (player : Color) (c : Collection) (st : Stage) : Stage :=
  let selection := (st.game.seat player).selection
  let offered := offer st.game.board c
  if selection.choosing then st
  else if offered.hexes.isEmpty && offered.cards.isEmpty then
    { st with game := { st.game with refusal := some .noValidTargets } }
  else
    ⟨st.game.setSelection player { offered with chosen := selection.chosen },
      .suspended player c st.game.board :: st.trace⟩

theorem run_look {α : Type} (k : Match → Resolving α) (ctx : Context) (st : Stage) :
    ((game >>= k).run ctx).run st = ((k st.game).run ctx).run st := rfl

theorem run_ask (player : Color) (c : Collection) (ctx : Context) (st : Stage) :
    ((ask player c).run ctx).run st = .ok ((c.emptied, ctx), asked player c st) := by
  unfold ask
  rw [run_look, asked]
  dsimp only
  split
  · rfl
  · split <;> rfl

theorem run_consult (c : Collection) (ctx : Context) (st : Stage) :
    ((consult c).run ctx).run st =
      ((match (st.game.seat st.game.turn).selection.chosen with
        | choice :: later => answer st.game.turn choice later c
        | [] => ask st.game.turn c).run ctx).run st := run_look _ ctx st

theorem consulted {c : Collection} {ctx : Context} {st st' : Stage} {x : Collection × Context}
    (h : ((consult c).run ctx).run st = .ok (x, st')) : Consulted c ctx st x st' := by
  rw [run_consult] at h
  split at h
  · rename_i choice later hchosen
    cases h
    exact .answered choice later hchosen
  · rename_i hchosen
    rw [run_ask] at h
    cases h
    rw [asked]
    dsimp only
    split
    · rename_i hchoosing
      exact .waiting hchosen hchoosing
    · rename_i hchoosing
      have hno : (st.game.seat st.game.turn).selection.choosing = false := by simpa using hchoosing
      split
      · rename_i hempty
        simp only [Bool.and_eq_true, List.isEmpty_iff] at hempty
        exact .refused hchosen hno hempty.1 hempty.2
      · rename_i hempty
        simp only [Bool.and_eq_true, List.isEmpty_iff] at hempty
        rw [hchosen, ← chosen_offer st.game.board c]
        refine .suspended hchosen hno ?_
        by_cases hhexes : (offer st.game.board c).hexes = []
        · exact .inr fun hcards => hempty ⟨hhexes, hcards⟩
        · exact .inl hhexes

theorem Consulted.interactive_eq {c : Collection} {ctx : Context} {st st' : Stage}
    {x : Collection × Context} (h : Consulted c ctx st x st') :
    x.2.interactive = ctx.interactive := by cases h <;> rfl

end HexDuel.Resolving
