import HexDuel.Proofs.Built
import HexDuel.Proofs.Consult

/-!
What targets, conditions and numbers stand for is found by built computations.
-/

set_option autoImplicit false

namespace HexDuel

variable {asks ends : Bool}

namespace Match

theorem hand_bare (m : Match) (c : Color) : (m.bare.seat c).hand = (m.seat c).hand := by
  rw [seat_bare]
  rfl

theorem holderOf?_bare (m : Match) (id : CardId) : m.bare.holderOf? id = m.holderOf? id := by
  simp only [holderOf?, Seat.cardInHand?, hand_bare]

end Match

namespace Resolving

theorem built_pickFrom {α : Type} (count : Nat) (xs : List α) :
    Built asks ends (pickFrom count xs) :=
  .look (fun _ => rfl) fun _ => (Built.edit (.random _)).next fun _ => .pure _

theorem built_pick (count : Nat) (c : Collection) : Built asks ends (pick count c) := by
  cases c <;> exact (built_pickFrom count _).next fun _ => .pure _

theorem built_random (count : Nat) (c : Collection) : Built asks ends (random count c) := by
  refine (built_pick count c).next fun picked => ?_
  refine (Built.note (.picked picked) rfl).next fun _ => ?_
  refine .look (fun m => by cases picked <;> rfl) fun m => ?_
  dsimp only
  split
  · exact .pure _
  · exact (Built.edit (.addLog _ _ _)).next fun _ => .pure _

theorem built_consult (h : asks = true) (c : Collection) : Built asks ends (consult c) := by
  intro ctx _
  refine ⟨.consult c ctx h, ?_⟩
  rintro x ⟨st, st', hst⟩
  exact (consulted hst).interactive_eq

theorem built_choose (c : Collection) : Built asks ends (choose c) := by
  unfold choose
  split
  · exact .fail _
  · refine .context fun ctx hctx => ?_
    split
    · exact built_random 1 c
    · rename_i h
      exact built_consult (hctx (by simpa using h)) c

theorem built_freshCardId : Built asks ends freshCardId := by
  intro ctx _
  refine ⟨Play.Built.number.next fun _ => .pure _, ?_⟩
  intro x hx
  obtain ⟨n, _, st, st', hst⟩ := Play.Yields.bind hx
  cases hst
  rfl

theorem built_copyOf (template : Option Card) : Built asks ends (copyOf template) := by
  cases template with
  | none => exact .pure _
  | some c => exact built_freshCardId.next fun _ => .pure _

theorem built_generate (type : CardType) (stats : Stats) (name : Option String) :
    Built asks ends (generate type stats name) := built_freshCardId.next fun _ => .pure _

theorem controllers_bare (m : Match) (c : Collection) : controllers m c = controllers m.bare c := by
  cases c with
  | cards xs =>
    cases xs with
    | nil => rfl
    | cons a as => cases as <;> simp [controllers, Match.holderOf?_bare]
  | _ => rfl

mutual

theorem built_resolve : (t : Target) → Built asks ends (resolve t)
  | .allTiles => .pure _
  | .cardsInHand player types =>
    (built_resolve player).next fun _ => (Built.outcome _).next fun _ =>
      .look (fun m => by simp only [Match.hand_bare]) fun _ => .pure _
  | .piecesInPlay types => .look (fun _ => rfl) fun _ => .pure _
  | .piecesMatching types conditions =>
    (built_compileAll conditions).next fun _ => .look (fun _ => rfl) fun _ =>
      (Built.outcome _).next fun _ => .pure _
  | .tilesMatching conditions =>
    (built_compileAll conditions).next fun _ => .look (fun _ => rfl) fun _ =>
      (Built.outcome _).next fun _ => .pure _
  | .all inner => built_resolve inner
  | .choose inner => (built_resolve inner).next built_choose
  | .random count pool => (built_resolve pool).next (built_random count)
  | .it | .that | .they | .thisPiece =>
    .look (fun _ => rfl) fun _ => .context fun _ _ => .pure _
  | .allPlayers => .look (fun _ => rfl) fun _ => .pure _
  | .selfPlayer | .opponent | .salientPlayer =>
    .context fun _ _ => .look (fun _ => rfl) fun _ => .pure _
  | .controllerOf inner =>
    (built_resolve inner).next fun c =>
      .look (fun m => by rw [controllers_bare]) fun _ => (Built.outcome _).next fun _ => .pure _
  | .copyOf inner =>
    (built_resolve inner).next fun c =>
      .look (fun m => by cases c <;> rfl) fun _ => (Built.outcome _).next built_copyOf
  | .generateCard type stats name => built_generate type stats name

theorem built_compile : (c : Condition) → Built asks ends (compile c)
  | .adjacentTo target =>
    (built_resolve target).next fun c =>
      .look (fun m => by cases c <;> rfl) fun _ => (Built.outcome _).next fun _ => .pure _
  | .attributeIs _ _ value => (built_evaluate value).next fun _ => .pure _
  | .controlledBy target =>
    (built_resolve target).next fun _ => (Built.outcome _).next fun _ => .pure _
  | .exactDistance _ target | .withinDistance _ target =>
    (built_resolve target).next fun c =>
      .look (fun m => by cases c <;> rfl) fun _ => (Built.outcome _).next fun _ => .pure _
  | .hasId _ | .hasProperty _ | .unoccupied => .pure _

theorem built_compileAll : (cs : List Condition) → Built asks ends (compileAll cs)
  | [] => .pure _
  | c :: cs =>
    (built_compile c).next fun _ => (built_compileAll cs).next fun _ => .pure _

theorem built_evaluate : (n : Number) → Built asks ends (evaluate n)
  | .const _ => .pure _
  | .count target => (built_resolve target).next fun _ => .pure _
  | .attributeSum target _ =>
    (built_resolve target).next fun c =>
      .look (fun m => by cases c <;> rfl) fun _ => (Built.outcome _).next fun _ => .outcome _
  | .attributeValue target _ =>
    (built_resolve target).next fun c =>
      .look (fun m => by cases c <;> rfl) fun _ => (Built.outcome _).next fun _ => .pure _

end

theorem built_evaluateState (c : StateCondition) : Built asks ends (evaluateState c) := by
  cases c with
  | collectionExists target => exact (built_resolve target).next fun _ => .pure _
  | targetHasProperty target property =>
    exact (built_resolve target).next fun c =>
      .look (fun m => by cases c <;> rfl) fun _ => (Built.outcome _).next fun _ => .outcome _

theorem built_resolveModifier (modifier : Modifier) : Built asks ends (resolveModifier modifier) :=
  (built_evaluate _).next fun _ => .pure _

theorem built_resolvePieces (target : Target) : Built asks ends (resolvePieces target) :=
  (built_resolve target).next fun c => .look (fun m => by cases c <;> rfl) fun _ => .outcome _

end Resolving

end HexDuel
