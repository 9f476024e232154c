import HexDuel.Proofs.Imprints

/-!
Withdrawals, all of one form: of which abilities which entries go, wherever they are. What is taken
back in one withdrawal after the other might as well go at once.
-/

set_option autoImplicit false

namespace HexDuel

deriving instance DecidableEq for Imprint

/-! ### What is taken back -/

/-- Of which abilities what kind of entry is taken back. -/
abbrev Relief : Type := Imprint → AbilityId → Bool

namespace Relief

def nothing : Relief := fun _ _ => false

def both (r r' : Relief) : Relief := fun k id => r k id || r' k id

end Relief

def Passive.relieve (r : Relief) (a : Passive) : Passive :=
  { a with disabled := a.disabled || a.source.any (r .grant) }

def Trigger.relieve (r : Relief) (t : Trigger) : Trigger :=
  { t with disabled := t.disabled || t.source.any (r .grant) }

/-- The object without such entries, and with such grants disabled. -/
def Piece.relieve (r : Relief) (p : Piece) : Piece :=
  { p with
    passives := p.passives.map (·.relieve r)
    triggers := p.triggers.map (·.relieve r)
    activations := p.activations.filter (!r .activation ·.ability)
    statuses := p.statuses.filter (!r .status ·.ability)
    adjustments := p.adjustments.filter (!r .adjustment ·.ability) }

def Card.relieve (r : Relief) (c : Card) : Card :=
  { c with costAdjustments := c.costAdjustments.filter (!r .adjustment ·.ability) }

def Seat.relieve (r : Relief) (s : Seat) : Seat := { s with hand := s.hand.map (·.relieve r) }

def Match.relieve (r : Relief) (m : Match) : Match :=
  { m with
    board := m.board.mapPieces (·.relieve r)
    seats := ⟨m.seats.blue.relieve r, m.seats.orange.relieve r⟩ }

theorem Match.seat_relieve (r : Relief) (m : Match) (c : Color) :
    (m.relieve r).seat c = (m.seat c).relieve r := by
  cases c <;> rfl

/-! ### Nothing to take back -/

section Untouched
variable {r : Relief}

theorem Passive.relieve_of_source {a : Passive}
    (h : ∀ id, a.source = some id → r .grant id = false) : a.relieve r = a := by
  obtain ⟨id, source, targets, effect, duration, disabled, applied⟩ := a
  cases source with
  | none => simp [relieve]
  | some source => simp [relieve, h source rfl]

theorem Trigger.relieve_of_source {t : Trigger}
    (h : ∀ id, t.source = some id → r .grant id = false) : t.relieve r = t := by
  obtain ⟨id, source, spec, actions, overrides, duration, disabled⟩ := t
  cases source with
  | none => simp [relieve]
  | some source => simp [relieve, h source rfl]

theorem List.filter_not_eq_self {α : Type} {test : α → Bool} {xs : List α}
    (h : ∀ x ∈ xs, test x = false) : xs.filter (!test ·) = xs :=
  List.filter_eq_self.2 fun x hx => by simp [h x hx]

/-- An object that bears none of it stays as it is. -/
theorem Piece.relieve_of_forall {p : Piece} (hgrants : ∀ id, r .grant id = false)
    (hactivations : ∀ x ∈ p.activations, r .activation x.ability = false)
    (hstatuses : ∀ x ∈ p.statuses, r .status x.ability = false)
    (hadjustments : ∀ x ∈ p.adjustments, r .adjustment x.ability = false) :
    p.relieve r = p := by
  have hpassives : p.passives.map (·.relieve r) = p.passives :=
    (List.map_congr_left fun a _ => a.relieve_of_source fun id _ => hgrants id).trans
      (List.map_id _)
  have htriggers : p.triggers.map (·.relieve r) = p.triggers :=
    (List.map_congr_left fun t _ => t.relieve_of_source fun id _ => hgrants id).trans
      (List.map_id _)
  rw [relieve, hpassives, htriggers, List.filter_not_eq_self hactivations,
    List.filter_not_eq_self hstatuses, List.filter_not_eq_self hadjustments]

theorem Card.relieve_of_forall {c : Card}
    (h : ∀ x ∈ c.costAdjustments, r .adjustment x.ability = false) : c.relieve r = c := by
  rw [relieve, List.filter_not_eq_self h]

theorem Seat.relieve_of_forall {s : Seat}
    (h : ∀ c ∈ s.hand, ∀ x ∈ c.costAdjustments, r .adjustment x.ability = false) :
    s.relieve r = s := by
  have hhand : s.hand.map (·.relieve r) = s.hand :=
    (List.map_congr_left fun c hc => Card.relieve_of_forall (h c hc)).trans (List.map_id _)
  rw [relieve, hhand]

theorem Match.relieve_nothing (m : Match) : m.relieve .nothing = m := by
  have hpieces : ∀ p : Piece, p.relieve .nothing = p := fun p =>
    p.relieve_of_forall (fun _ => rfl) (fun _ _ => rfl) (fun _ _ => rfl) fun _ _ => rfl
  have hseats : ∀ s : Seat, s.relieve .nothing = s := fun s =>
    s.relieve_of_forall fun _ _ _ _ => rfl
  simp [relieve, hpieces, hseats, Board.mapPieces]

end Untouched

/-! ### One after the other -/

section Both
variable (r r' : Relief)

theorem Passive.relieve_relieve (a : Passive) :
    (a.relieve r).relieve r' = a.relieve (r.both r') := by
  obtain ⟨id, source, targets, effect, duration, disabled, applied⟩ := a
  cases source <;> simp [relieve, Relief.both, Bool.or_assoc]

theorem Trigger.relieve_relieve (t : Trigger) :
    (t.relieve r).relieve r' = t.relieve (r.both r') := by
  obtain ⟨id, source, spec, actions, overrides, duration, disabled⟩ := t
  cases source <;> simp [relieve, Relief.both, Bool.or_assoc]

theorem Piece.relieve_relieve (p : Piece) :
    (p.relieve r).relieve r' = p.relieve (r.both r') := by
  simp [relieve, Passive.relieve_relieve, Trigger.relieve_relieve, List.filter_filter, Relief.both,
    Function.comp_def, Bool.and_comm]

theorem Card.relieve_relieve (c : Card) :
    (c.relieve r).relieve r' = c.relieve (r.both r') := by
  simp [relieve, List.filter_filter, Relief.both, Bool.and_comm]

theorem Match.relieve_relieve (m : Match) :
    (m.relieve r).relieve r' = m.relieve (r.both r') := by
  simp [relieve, Seat.relieve, Board.mapPieces, Piece.relieve_relieve, Card.relieve_relieve,
    Function.comp_def]

end Both

/-! ### Withdrawals -/

namespace Passive

/-- What a withdrawal of the ability takes back. -/
def mark (a : Passive) : Relief := fun k id => decide (k = a.imprint) && id == a.id

/-- The same, if it has been applied. -/
def due (a : Passive) : Relief := fun k id => a.applied.isSome && a.mark k id

/-- What is taken back when they are all withdrawn. -/
def dues (as : List Passive) : Relief := fun k id => as.any (·.due k id)

@[simp] theorem mark_apply (a : Passive) (k : Imprint) (id : AbilityId) :
    a.mark k id = (decide (k = a.imprint) && id == a.id) := rfl

/-- Entries of other kinds stay. -/
theorem mark_of_ne {a : Passive} {k : Imprint} (h : k ≠ a.imprint) (id : AbilityId) :
    a.mark k id = false := by simp [h]

theorem relieve_grants {r : Relief} {id : AbilityId} (h : ∀ i, r .grant i = (i == id))
    (a : Passive) : (if a.source == some id then { a with disabled := true } else a) =
      a.relieve r := by
  obtain ⟨_, source, _, _, _, _, _⟩ := a
  cases source with
  | none => simp [relieve]
  | some i => by_cases hi : i = id <;> simp [relieve, h, hi]

end Passive

theorem Trigger.relieve_grants {r : Relief} {id : AbilityId} (h : ∀ i, r .grant i = (i == id))
    (t : Trigger) : (if t.source == some id then { t with disabled := true } else t) =
      t.relieve r := by
  obtain ⟨_, source, _, _, _, _, _⟩ := t
  cases source with
  | none => simp [relieve]
  | some i => by_cases hi : i = id <;> simp [relieve, h, hi]

theorem Passive.clear_eq (a : Passive) (p : Piece) : a.clear p = p.relieve a.mark := by
  have hpassives (h : .grant ≠ a.imprint) : p.passives.map (·.relieve a.mark) = p.passives :=
    (List.map_congr_left fun b _ => b.relieve_of_source fun id _ => mark_of_ne h id).trans
      (List.map_id _)
  have htriggers (h : .grant ≠ a.imprint) : p.triggers.map (·.relieve a.mark) = p.triggers :=
    (List.map_congr_left fun t _ => t.relieve_of_source fun id _ => mark_of_ne h id).trans
      (List.map_id _)
  have hactivations (h : .activation ≠ a.imprint) :
      p.activations.filter (!a.mark .activation ·.ability) = p.activations :=
    List.filter_not_eq_self fun _ _ => mark_of_ne h _
  have hstatuses (h : .status ≠ a.imprint) :
      p.statuses.filter (!a.mark .status ·.ability) = p.statuses :=
    List.filter_not_eq_self fun _ _ => mark_of_ne h _
  have hadjustments (h : .adjustment ≠ a.imprint) :
      p.adjustments.filter (!a.mark .adjustment ·.ability) = p.adjustments :=
    List.filter_not_eq_self fun _ _ => mark_of_ne h _
  unfold clear Piece.relieve
  split <;> rename_i heffect
  · have himprint : a.imprint = .adjustment := by simp [imprint, heffect]
    rw [hpassives (by simp [himprint]), htriggers (by simp [himprint]),
      hactivations (by simp [himprint]), hstatuses (by simp [himprint])]
    simp [Piece.dropAdjustments, himprint, bne]
  · have himprint : a.imprint = .status := by simp [imprint, heffect]
    rw [hpassives (by simp [himprint]), htriggers (by simp [himprint]),
      hactivations (by simp [himprint]), hadjustments (by simp [himprint])]
    simp [Piece.dropStatuses, himprint, bne]
  · have himprint : a.imprint = .grant := by simp [imprint, heffect]
    have hmark : ∀ i, a.mark .grant i = (i == a.id) := fun i => by simp [himprint]
    rw [hactivations (by simp [himprint]), hstatuses (by simp [himprint]),
      hadjustments (by simp [himprint])]
    simp only [Piece.setGrants, relieve_grants hmark, Trigger.relieve_grants hmark]
  · have himprint : a.imprint = .activation := by simp [imprint, heffect]
    rw [hpassives (by simp [himprint]), htriggers (by simp [himprint]),
      hstatuses (by simp [himprint]), hadjustments (by simp [himprint])]
    simp [Piece.dropActivations, himprint, bne]

namespace Match

theorem withdraw_eq (a : Passive) (m : Match) : m.withdraw a = m.relieve a.mark := by
  have hboard : m.board.mapPieces a.clear = m.board.mapPieces (·.relieve a.mark) :=
    congrArg m.board.mapPieces (funext a.clear_eq)
  have hseat (h : .adjustment ≠ a.imprint) (s : Seat) : s.relieve a.mark = s :=
    s.relieve_of_forall fun _ _ _ _ => Passive.mark_of_ne h _
  rw [← board_withdraw] at hboard
  unfold relieve
  rw [← hboard]
  unfold withdraw
  split <;> rename_i heffect
  · have himprint : a.imprint = .adjustment := by simp [Passive.imprint, heffect]
    have hcard : ∀ c : Card, c.dropCostOf a.id = c.relieve a.mark := fun c => by
      simp [Card.dropCostOf, Card.relieve, himprint, bne]
    simp only [hcard]
    rfl
  all_goals
    rw [hseat (by simp [Passive.imprint, heffect]), hseat (by simp [Passive.imprint, heffect])]
    rfl

theorem withdrawApplied_eq (a : Passive) (m : Match) : m.withdrawApplied a = m.relieve a.due := by
  unfold withdrawApplied
  cases happlied : a.applied with
  | none =>
    have hdue : a.due = .nothing := by funext k id; simp [Passive.due, happlied, Relief.nothing]
    rw [hdue, relieve_nothing]
    rfl
  | some targets =>
    have hdue : a.due = a.mark := by funext k id; simp [Passive.due, happlied]
    rw [hdue, ← withdraw_eq]
    rfl

theorem withdrawAll_eq (as : List Passive) (m : Match) :
    m.withdrawAll as = m.relieve (Passive.dues as) := by
  induction as generalizing m with
  | nil => exact (relieve_nothing m).symm
  | cons a as ih =>
    have hdues : Passive.dues (a :: as) = a.due.both (Passive.dues as) := rfl
    rw [hdues, ← relieve_relieve, ← withdrawApplied_eq, ← ih]
    rfl

end Match
end HexDuel
