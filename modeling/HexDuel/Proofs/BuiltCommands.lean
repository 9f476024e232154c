import HexDuel.Proofs.BuiltEffects

/-!
Commands are built, and what they find out once they have begun is never that they came out of turn.
-/

set_option autoImplicit false

namespace HexDuel

/-- A refusal that is found only once the command has begun. -/
def Rejection.isLate : Rejection → Bool
  | .notYourTurn | .gameOver | .selectionPending | .nothingToChoose | .illegalTarget => false
  | _ => true

namespace Attempt
variable {α β : Type}

/-- An attempt that is built, and that is refused for what the command finds only. -/
def Built (a : Attempt α) : Prop :=
  Play.Built true false a.run ∧ ∀ r, Play.Yields a.run (.error r) → r.isLate = true

namespace Built

theorem lift {p : Play α} (h : Play.Built true false p) : Built (liftM p : Attempt α) := by
  have hrun : (liftM p : Attempt α).run = p >>= fun a => Pure.pure (Except.ok a) := rfl
  unfold Built
  rw [hrun]
  refine ⟨h.next fun a => .pure (Except.ok a), ?_⟩
  intro r hr
  obtain ⟨a, _, st, st', hst⟩ := Play.Yields.bind hr
  cases hst

theorem pure (a : α) : Built (Pure.pure a) := lift (.pure a)

theorem fault (f : Fault) : Built (throwThe Fault f : Attempt α) := lift (.fail f)

theorem refuse {r : Rejection} (h : r.isLate = true) : Built (refuse r : Attempt α) := by
  refine ⟨.pure (Except.error r), ?_⟩
  rintro r' ⟨st, st', hst⟩
  cases hst
  exact h

theorem next {a : Attempt α} {k : α → Attempt β} (ha : Built a) (hk : ∀ x, Built (k x)) :
    Built (a >>= k) := by
  unfold Built
  rw [ExceptT.run_bind]
  refine ⟨?_, ?_⟩
  · refine ha.1.next fun x => ?_
    cases x with
    | ok x => exact (hk x).1
    | error r => exact .pure _
  · intro r hr
    obtain ⟨x, hx, hr⟩ := Play.Yields.bind hr
    cases x with
    | ok x => exact (hk x).2 r hr
    | error r' =>
      obtain ⟨st, st', hst⟩ := hr
      cases hst
      exact ha.2 r hx

theorem look {k : Match → Attempt α} (h : ∀ m, k m = k m.bare) (hk : ∀ m, Built (k m)) :
    Built (game >>= k) := by
  refine ⟨.look (fun m => by rw [← h m]) fun m => (hk m).1, ?_⟩
  rintro r ⟨st, st', hst⟩
  exact (hk st.game).2 r ⟨st, st', hst⟩

theorem edit {f : Match → Match} (h : Edit f) : Built (change f) := lift (.edit h)

end Built

theorem built_ownPieceAt (player : Color) (hex : Hex) : Built (ownPieceAt player hex) := by
  refine .look (fun _ => rfl) fun m => ?_
  split
  · split
    · exact .pure _
    · exact .refuse rfl
  · exact .refuse rfl

theorem built_pay (player : Color) (cost : Int) : Built (pay player cost) :=
  .look (fun m => by simp only [Match.seat_bare]; rfl) fun _ =>
    (Built.lift (.lift _)).next fun available => .edit (.setAvailable player available)

section Running

variable {run : Runner} (hrun : run.Built true)
include hrun

theorem built_occur (o : Occurrence) (ctx : Context) {byDefault : Play Unit}
    (hdefault : Play.Built true false byDefault) : Built (liftM (Play.occur run o ctx byDefault)) :=
  .lift (Play.built_occur hrun o (fun _ => rfl) hdefault)

theorem built_resolveEvent (card : Card) (sentences : List Sentence) :
    Resolving.Built true false (resolveEvent run card sentences) := by
  induction sentences with
  | nil => exact .pure _
  | cons s rest ih =>
    cases s with
    | actions actions => exact (Resolving.built_executeAll hrun actions).next fun _ => ih
    | _ => exact .fail _

theorem built_playEvent (player : Color) (card : Card) (cost : Int) :
    Built (playEvent run player card cost) := by
  refine (Built.edit (.eventResolving true)).next fun _ => ?_
  refine (built_pay player cost).next fun _ => ?_
  refine (Built.edit (.playSound _)).next fun _ => ?_
  refine (Built.edit (.addLog _ _ _)).next fun _ => ?_
  refine (Built.lift ((built_resolveEvent hrun card _).run fun _ => rfl)).next fun x => ?_
  refine .look (fun m => by simp only [Seat.cardInHand?, Match.hand_bare]) fun m => ?_
  have hrest : Built (do
      change fun m => { m with eventResolving := false }
      Play.occur run ((Occurrence.ofPlayer .afterCardPlay player).withCard card) x.2
        (Pure.pure ())) :=
    (Built.edit (.eventResolving false)).next fun _ => built_occur hrun _ _ (.pure ())
  dsimp only
  split
  · exact (Built.edit (.dropFromHand player card.id)).next fun _ =>
      (Built.edit (.discard player _)).next fun _ => hrest
  · exact hrest

theorem built_playPiece (player : Color) (card : Card) (cost : Int) (hex : Hex) :
    Built (playPiece run player card cost hex) := by
  refine .look (fun _ => rfl) fun m => ?_
  split
  · exact .refuse rfl
  · refine (built_pay player cost).next fun _ => ?_
    refine .look (fun m => by simp only [Seat.cardInHand?, Match.hand_bare]) fun m => ?_
    split
    · exact .refuse rfl
    · rename_i held _
      refine (Built.edit (.dropFromHand player held.id)).next fun _ => ?_
      refine (Built.lift (Play.built_placeCard hrun (fun _ => rfl) _ _ _ true)).next fun _ => ?_
      split
      · exact .refuse rfl
      · rename_i id
        exact (Built.edit (.addLog _ _ _)).next fun _ =>
          (built_occur hrun _ _ (.pure ())).next fun _ => .edit (.piece id .arrive)

theorem built_playCard (player : Color) (id : CardId) (hex : Option Hex) :
    Built (playCard run player id hex) := by
  refine .look (fun m => by simp only [Match.seat_bare]; rfl) fun m => ?_
  dsimp only
  split
  · exact .refuse rfl
  · refine (Built.lift (.lift _)).next fun cost => ?_
    split
    · exact .refuse rfl
    · split
      · exact built_playEvent hrun player _ cost
      · exact .fault _
      · exact built_playPiece hrun player _ cost _
      · exact .fault _

theorem built_movePiece (player : Color) (start goal : Hex) :
    Built (movePiece run player start goal) := by
  refine (built_ownPieceAt player start).next fun p => ?_
  refine (Built.lift (.walk p.id start goal)).next fun moved => ?_
  split
  · exact (Built.edit (.animate _)).next fun _ => (Built.edit (.playSound _)).next fun _ =>
      built_occur hrun _ _ (.pure ())
  · exact .refuse rfl

theorem built_combat (attacker defender : PieceId) (ctx : Context) :
    Play.Built true false (combat run attacker defender ctx) := by
  refine (Play.built_piece? attacker).next fun a => ?_
  split
  · exact .pure _
  · rename_i a
    refine (Play.Built.lift _).next fun attack => ?_
    refine (Play.built_piece? defender).next fun d => ?_
    have hblows : ∀ retaliation : Int, Play.Built true false (do
        Play.dealDamage run defender attack (some .combat) ctx
        if 0 < retaliation && (← Play.game).board.contains attacker then
          Play.dealDamage run attacker retaliation (some .combat) ctx) := by
      intro retaliation
      refine (Play.built_dealDamage hrun (fun _ => rfl) defender attack _).next fun _ => ?_
      refine .look (fun _ => rfl) fun m => ?_
      split
      · exact Play.built_dealDamage hrun (fun _ => rfl) attacker retaliation _
      · exact .pure _
    cases d with
    | none => exact hblows 0
    | some d =>
      have hnote : Play.Built true false (Play.note (.combat a d)) := .note _ rfl
      dsimp only
      split
      · exact hnote.next fun _ => hblows 0
      · exact (Play.Built.lift _).next fun retaliation => hnote.next fun _ => hblows retaliation

theorem built_strike (player : Color) (attacker defender : PieceId) (stand target : Hex) :
    Built (strike run player attacker defender stand target) := by
  refine .look (fun _ => rfl) fun m => ?_
  split
  · exact .pure _
  · refine (Built.edit (.piece attacker .struck)).next fun _ => ?_
    refine .look (fun _ => rfl) fun m => ?_
    split
    · exact .pure _
    · refine (Built.edit (.animate _)).next fun _ => ?_
      refine (Built.edit (.playSound _)).next fun _ => ?_
      refine (Built.edit (.addLog _ _ _)).next fun _ => ?_
      exact built_occur hrun _ _ (built_combat hrun attacker defender _)

theorem built_attackPiece (player : Color) (start target : Hex) :
    Built (attackPiece run player start target) := by
  refine (built_ownPieceAt player start).next fun a => ?_
  refine .look (fun _ => rfl) fun m => ?_
  refine (Built.lift (.lift _)).next fun hexes => ?_
  split
  · exact .refuse rfl
  · split
    · exact .refuse rfl
    · rename_i defender _
      refine (Built.lift (.lift _)).next fun step => ?_
      split
      · exact built_strike hrun player a.id defender start target
      · rename_i step
        exact (built_movePiece hrun player start step).next fun _ =>
          built_strike hrun player a.id defender step target

theorem built_activateAbility (player : Color) (hex : Hex) (index : Nat) :
    Built (activateAbility run player hex index) := by
  refine (built_ownPieceAt player hex).next fun own => ?_
  refine .look (fun _ => rfl) fun m => ?_
  split
  · exact .refuse rfl
  · split
    · exact .refuse rfl
    · split
      · exact .refuse rfl
      · refine (Built.edit (.addLog _ _ _)).next fun _ => ?_
        refine (Built.lift ((Resolving.built_executeAll hrun _).run' fun _ => rfl)).next fun _ => ?_
        exact .edit (.piece own.id .spent)

theorem built_perform (player : Color) (resumption : Resumption) :
    Built (perform run player resumption) := by
  cases resumption with
  | playCard card hex => exact built_playCard hrun player card hex
  | movePiece start goal => exact built_movePiece hrun player start goal
  | attackPiece start target => exact built_attackPiece hrun player start target
  | activateAbility hex index => exact built_activateAbility hrun player hex index

end Running
end Attempt

end HexDuel
