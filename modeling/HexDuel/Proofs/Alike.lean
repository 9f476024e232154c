import HexDuel.Proofs.Likeness

/-!
Matches that are alike but for their status lines. No rule goes by a status line, so such matches
take every command the same way.
-/

set_option autoImplicit false

namespace HexDuel.Match

/-- The match with empty status lines. -/
def hush (m : Match) : Match := m.mask Notices.hush

/-- The same, without the reason for which the last command was refused. -/
def muted (m : Match) : Match := m.heard.hush

theorem hush_setSelection (m : Match) (c : Color) (x : Selection) :
    (m.setSelection c x).hush = m.hush.setSelection c x := by cases c <;> rfl

theorem hush_setStatus (m : Match) (c : Color) (text : String) :
    (m.setStatus c text).hush = m.hush := by cases c <;> rfl

/-- Status lines make no difference. -/
theorem likeness_hush : Likeness fun m m' => m.hush = m'.hush where
  bare h := bare_eq_of_mask h fun _ => rfl
  told h := congrArg notices h
  change hf h := by
    cases hf with
    | edit hf => exact hf.silent.mask_eq h
    | board f => exact (silent_changeBoard f).mask_eq h
    | lastId n => exact Silent.mask_eq (f := fun m => { m with lastId := n }) (fun _ _ => rfl) h
    | turn c => exact congrArg (fun m : Match => { m with turn := c }) h
    | select c x => rw [hush_setSelection, hush_setSelection, h]
    | status c text => rw [hush_setStatus, hush_setStatus, h]
    | pending p => exact congrArg (fun m : Match => { m with pending := p }) h
    | refusal r => exact congrArg (fun m : Match => { m with refusal := r }) h

end HexDuel.Match
