import HexDuel.Proofs.ActsCommands

/-!
Commands that are rejected in their course. A command is rejected while it is still being looked at
whether it can be carried out, or when its card cannot be placed: nothing has been told by then.
-/

set_option autoImplicit false

namespace HexDuel

namespace Attempt
variable {α β : Type}

/-- However it ends, nothing is told. -/
def Untold (a : Attempt α) : Prop := ∀ s x s', a.run.run s = .ok (x, s') → s'.trace = s.trace

/-- It does not end with a rejection. -/
def Firm (a : Attempt α) : Prop := ∀ s r s', a.run.run s ≠ .ok (.error r, s')

/-- Nothing has been told when it is rejected. -/
def Mild (a : Attempt α) : Prop :=
  ∀ s r s', a.run.run s = .ok (.error r, s') → s'.trace = s.trace

theorem rejected_of_bind {a : Attempt α} {k : α → Attempt β} {s s' : Stage} {r : Rejection}
    (h : (a >>= k).run.run s = .ok (.error r, s')) : a.run.run s = .ok (.error r, s') ∨
      ∃ x s₁, a.run.run s = .ok (.ok x, s₁) ∧ (k x).run.run s₁ = .ok (.error r, s') := by
  rw [ExceptT.run_bind] at h
  obtain ⟨x, s₁, hfirst, hrest⟩ := Play.run_bind h
  cases x with
  | ok x => exact .inr ⟨x, s₁, hfirst, hrest⟩
  | error r' =>
    cases hrest
    exact .inl hfirst

namespace Firm

theorem lift (p : Play α) : Firm (liftM p : Attempt α) := by
  intro s r s' h
  have h : (p >>= fun a => Pure.pure (Except.ok a)).run s = .ok (.error r, s') := h
  obtain ⟨_, _, _, hrest⟩ := Play.run_bind h
  cases hrest

theorem pure (a : α) : Firm (Pure.pure a : Attempt α) := lift (Pure.pure a)

theorem fault (f : Fault) : Firm (throwThe Fault f : Attempt α) := lift (throw f)

theorem change (f : Match → Match) : Firm (Attempt.change f) := lift (Play.change f)

theorem next {a : Attempt α} {k : α → Attempt β} (ha : Firm a) (hk : ∀ x, Firm (k x)) :
    Firm (a >>= k) := by
  intro s r s' h
  obtain h | ⟨x, s₁, -, hrest⟩ := rejected_of_bind h
  · exact ha _ _ _ h
  · exact hk _ _ _ _ hrest

theorem look {k : Match → Attempt α} (hk : ∀ m, Firm (k m)) : Firm (game >>= k) :=
  (lift Play.game).next hk

theorem mild {a : Attempt α} (h : Firm a) : Mild a := fun s r s' hrun => (h s r s' hrun).elim

end Firm

namespace Untold

theorem refuse (r : Rejection) : Untold (Attempt.refuse r : Attempt α) := by
  intro s x s' h
  cases h
  rfl

theorem pure (a : α) : Untold (Pure.pure a : Attempt α) := by
  intro s x s' h
  cases h
  rfl

theorem lift {p : Play α} (hp : ∀ s a s', p.run s = .ok (a, s') → s'.trace = s.trace) :
    Untold (liftM p : Attempt α) := by
  intro s x s' h
  have h : (p >>= fun a => Pure.pure (Except.ok a)).run s = .ok (x, s') := h
  obtain ⟨a, s₁, hrun, hrest⟩ := Play.run_bind h
  cases hrest
  exact hp s a _ hrun

theorem outcome (x : Outcome α) : Untold (liftM (liftM x : Play α) : Attempt α) :=
  lift fun _ _ _ h => (Play.of_run_lift h).2 ▸ rfl

theorem change (f : Match → Match) : Untold (Attempt.change f) := by
  refine lift fun s a s' h => ?_
  cases h
  rfl

theorem look {k : Match → Attempt α} (hk : ∀ m, Untold (k m)) : Untold (game >>= k) :=
  fun s x s' h => hk s.game s x s' h

theorem mild {a : Attempt α} (h : Untold a) : Mild a := fun s _ s' hrun => h s _ s' hrun

end Untold

namespace Mild

theorem after {a : Attempt α} {k : α → Attempt β} (ha : Untold a) (hk : ∀ x, Mild (k x)) :
    Mild (a >>= k) := by
  intro s r s' h
  obtain h | ⟨x, s₁, hfirst, hrest⟩ := rejected_of_bind h
  · exact ha _ _ _ h
  · exact (hk _ _ _ _ hrest).trans (ha _ _ _ hfirst)

theorem firmly {a : Attempt α} {k : α → Attempt β} (ha : Mild a) (hk : ∀ x, Firm (k x)) :
    Mild (a >>= k) := by
  intro s r s' h
  obtain h | ⟨x, s₁, -, hrest⟩ := rejected_of_bind h
  · exact ha _ _ _ h
  · exact (hk _ _ _ _ hrest).elim

theorem refuse (r : Rejection) : Mild (Attempt.refuse r : Attempt α) := (Untold.refuse r).mild

theorem look {k : Match → Attempt α} (hk : ∀ m, Mild (k m)) : Mild (game >>= k) :=
  after (Untold.lift fun s a s' h => by cases h; rfl) hk

end Mild

theorem untold_ownPieceAt (player : Color) (hex : Hex) : Untold (ownPieceAt player hex) := by
  refine .look fun m => ?_
  split
  · split
    · exact .pure _
    · exact .refuse _
  · exact .refuse _

theorem firm_pay (player : Color) (cost : Int) : Firm (pay player cost) :=
  .look fun _ => (Firm.lift _).next fun _ => .change _

theorem trace_of_pay {player : Color} {cost : Int} {s s' : Stage} {x : Except Rejection Unit}
    (h : (pay player cost).run.run s = .ok (x, s')) : s'.trace = s.trace := by
  cases x with
  | error r => exact (firm_pay player cost _ _ _ h).elim
  | ok x =>
    rw [paid_of_run h]
    rfl

theorem untold_walk (id : PieceId) (start goal : Hex) :
    Untold (liftM (walk id start goal) : Attempt Bool) := by
  refine .lift fun s a s' h => ?_
  cases Play.walked_of_run h <;> rfl

/-- A card is not placed where the cell cannot take it, and then everything is left as it was. -/
theorem unplaced_of_run {run : Runner} {card : Card} {hex : Hex} {owner : Color}
    {justPlayed : Bool} {ctx : Context} {s s' : Stage}
    (h : (Play.placeCard run card hex owner justPlayed ctx).run s = .ok (none, s')) :
    s' = s ∧ (!card.type.isPiece || !hex.onBoard || s.game.board.occupied hex) = true := by
  rw [Play.run_placeCard] at h
  split at h
  · rename_i htaken
    cases h
    exact ⟨rfl, htaken⟩
  · obtain ⟨n, s₁, -, hrest⟩ := Play.run_bind h
    obtain ⟨m, s₂, -, hrest⟩ := Play.run_bind hrest
    split at hrest
    · cases hrest
    · obtain ⟨_, s₃, -, hrest⟩ := Play.run_bind hrest
      obtain ⟨_, s₄, -, hrest⟩ := Play.run_bind hrest
      obtain ⟨_, s₅, -, hrest⟩ := Play.run_bind hrest
      obtain ⟨_, s₆, -, hrest⟩ := Play.run_bind hrest
      obtain ⟨_, s₇, -, hrest⟩ := Play.run_bind hrest
      obtain ⟨_, s₈, -, hrest⟩ := Play.run_bind hrest
      cases hrest

section Running

variable (run : Runner)

theorem firm_playEvent (player : Color) (card : Card) (cost : Int) :
    Firm (playEvent run player card cost) := by
  refine (Firm.change _).next fun _ => ?_
  refine (firm_pay player cost).next fun _ => ?_
  refine (Firm.change _).next fun _ => (Firm.change _).next fun _ => ?_
  refine (Firm.lift _).next fun x => .look fun m => ?_
  have hend : Firm (do
      change fun m => { m with eventResolving := false }
      Play.occur run ((Occurrence.ofPlayer .afterCardPlay player).withCard card) x.2
        (Pure.pure ())) := (Firm.change _).next fun _ => .lift _
  split
  · exact (Firm.change _).next fun _ => (Firm.change _).next fun _ => hend
  · exact hend

/-- Once a card has been placed, nothing of what follows is refused. -/
theorem firm_placed (player : Color) (card : Card) (id : PieceId) : Firm (do
    change (·.addLog (some player) s!"played {card.mention}" [card])
    Play.occur run ((Occurrence.ofPlayer .afterCardPlay player).withCard card) (.command player)
      (Pure.pure ())
    change (·.changePiece id (·.arrive))) :=
  (Firm.change _).next fun _ => (Firm.lift _).next fun _ => .change _

theorem mild_playPiece (player : Color) (card : Card) (cost : Int) (hex : Hex) :
    Mild (playPiece run player card cost hex) := by
  refine .look fun m => ?_
  split
  · exact .refuse _
  · refine .after (fun _ _ _ => trace_of_pay) fun _ => .look fun m => ?_
    split
    · exact .refuse _
    · rename_i held _
      refine .after (.change _) fun _ => ?_
      intro s r s' h
      obtain h | ⟨placed, s₁, hplace, hrest⟩ := rejected_of_bind h
      · exact (Firm.lift _ _ _ _ h).elim
      · cases placed with
        | none =>
          obtain ⟨rfl, -⟩ := unplaced_of_run (of_run_lift hplace)
          exact Mild.refuse _ _ _ _ hrest
        | some id => exact (firm_placed run player held id _ _ _ hrest).elim

theorem mild_playCard (player : Color) (id : CardId) (hex : Option Hex) :
    Mild (playCard run player id hex) := by
  refine .look fun m => ?_
  dsimp only
  split
  · exact .refuse _
  · refine .after (.outcome _) fun cost => ?_
    split
    · exact .refuse _
    · split
      · exact (firm_playEvent run player _ cost).mild
      · exact (Firm.fault _).mild
      · exact mild_playPiece run player _ cost _
      · exact (Firm.fault _).mild

theorem mild_movePiece (player : Color) (start goal : Hex) :
    Mild (movePiece run player start goal) := by
  refine .after (untold_ownPieceAt player start) fun p => ?_
  refine .after (untold_walk p.id start goal) fun moved => ?_
  split
  · exact ((Firm.change _).next fun _ => (Firm.change _).next fun _ => Firm.lift _).mild
  · exact .refuse _

theorem firm_strike (player : Color) (attacker defender : PieceId) (stand target : Hex) :
    Firm (strike run player attacker defender stand target) := by
  refine .look fun m => ?_
  split
  · exact .pure _
  · refine (Firm.change _).next fun _ => .look fun m => ?_
    split
    · exact .pure _
    · exact (Firm.change _).next fun _ => (Firm.change _).next fun _ =>
        (Firm.change _).next fun _ => .lift _

theorem mild_attackPiece (player : Color) (start target : Hex) :
    Mild (attackPiece run player start target) := by
  refine .after (untold_ownPieceAt player start) fun a => .look fun m => ?_
  refine .after (.outcome _) fun hexes => ?_
  split
  · exact .refuse _
  · split
    · exact .refuse _
    · refine .after (.outcome _) fun step => ?_
      split
      · exact (firm_strike run player a.id _ start target).mild
      · exact (mild_movePiece run player start _).firmly fun _ => firm_strike run player a.id _ _ _

theorem mild_activateAbility (player : Color) (hex : Hex) (index : Nat) :
    Mild (activateAbility run player hex index) := by
  refine .after (untold_ownPieceAt player hex) fun own => .look fun m => ?_
  split
  · exact .refuse _
  · split
    · exact .refuse _
    · split
      · exact .refuse _
      · exact ((Firm.change _).next fun _ => (Firm.lift _).next fun _ => .change _).mild

/-- A command is only rejected before anything is told. -/
theorem mild_perform (player : Color) (resumption : Resumption) :
    Mild (perform run player resumption) := by
  cases resumption with
  | playCard card hex => exact mild_playCard run player card hex
  | movePiece start goal => exact mild_movePiece run player start goal
  | attackPiece start target => exact mild_attackPiece run player start target
  | activateAbility hex index => exact mild_activateAbility run player hex index

end Running
end Attempt
end HexDuel
