import HexDuel.Proofs.Accounts
import HexDuel.Proofs.ActsEffects
import HexDuel.Proofs.Keeping

/-!
Boards without triggers. No object has one, and no ability gives one, whether by itself or through
what the abilities that it gives go on to give. Whatever else the abilities do, upkeep leaves the
board without triggers, and an event on it has no effects but its own.
-/

set_option autoImplicit false

namespace HexDuel

/-! ### Abilities that give triggers -/

mutual

/-- An object that is given the sentence has a trigger then, or an ability that gives one. -/
def Sentence.givesTrigger : Sentence → Bool
  | .actions _ => false
  | .setAbility phrase => phrase.givesTrigger
  | .setTrigger _ => true

def PassivePhrase.givesTrigger : PassivePhrase → Bool
  | ⟨_, effect, _⟩ => effect.givesTrigger

def PassiveEffect.givesTrigger : PassiveEffect → Bool
  | .grant ability => ability.givesTrigger
  | .adjust _ _ => false
  | .status _ => false
  | .activated _ _ => false

end

theorem PassivePhrase.givesTrigger_eq (phrase : PassivePhrase) :
    phrase.givesTrigger = phrase.effect.givesTrigger := by cases phrase; rfl

/-- The object has no trigger, and none of its abilities gives one. -/
structure Piece.Untriggered (p : Piece) : Prop where
  triggers : p.triggers = []
  passives : ∀ a ∈ p.passives, a.effect.givesTrigger = false

namespace Piece.Untriggered
variable {p : Piece}

theorem of_eq {q : Piece} (h : p.Untriggered) (htriggers : q.triggers = p.triggers)
    (hpassives : q.passives = p.passives) : q.Untriggered :=
  ⟨htriggers.trans h.triggers, hpassives ▸ h.passives⟩

theorem setGrants (h : p.Untriggered) (source : AbilityId) (disabled : Bool) :
    (p.setGrants source disabled).Untriggered := by
  refine ⟨List.map_eq_nil_iff.2 h.triggers, fun a ha => ?_⟩
  obtain ⟨b, hb, rfl⟩ := List.mem_map.1 ha
  have heffect := h.passives b hb
  split <;> exact heffect

theorem inscribe {f : Piece → Piece} (hf : Inscription f) (h : p.Untriggered) :
    (f p).Untriggered := by
  cases hf with
  | setGrants source disabled => exact h.setGrants source disabled
  | setApplied id applied =>
    refine ⟨h.triggers, fun a ha => ?_⟩
    obtain hold | ⟨b, hb, rfl⟩ := Piece.mem_changeFirst ha
    · exact h.passives a hold
    · exact h.passives b hb
  | adjust => simp only [adjust]; split <;> exact h.of_eq rfl rfl
  | addStatus => simp only [addStatus]; split <;> exact h.of_eq rfl rfl
  | addActivation => simp only [addActivation]; split <;> exact h.of_eq rfl rfl

theorem clear (a : Passive) (h : p.Untriggered) : (a.clear p).Untriggered := by
  unfold Passive.clear
  split
  · exact h.of_eq rfl rfl
  · exact h.of_eq rfl rfl
  · exact h.setGrants a.id true
  · exact h.of_eq rfl rfl

theorem dropDisabled (h : p.Untriggered) : p.dropDisabled.Untriggered :=
  ⟨congrArg (List.filter _) h.triggers, fun a ha => h.passives a (List.mem_filter.1 ha).1⟩

theorem addPassive {a : Passive} (ha : a.effect.givesTrigger = false) (h : p.Untriggered) :
    (p.addPassive a).Untriggered :=
  ⟨h.triggers, List.forall_mem_append.2 ⟨h.passives, List.forall_mem_singleton.2 ha⟩⟩

end Piece.Untriggered

/-! ### Upkeep -/

namespace Stage

/-- No trigger is on the board, and nothing on it gives one. -/
def Untriggered (s : Stage) : Prop := s.game.board.Every Piece.Untriggered

/-- If there was no trigger before, there is none after. -/
def StaysUntriggered (s s' : Stage) : Prop := s.Untriggered → s'.Untriggered

namespace StaysUntriggered
variable {s s' : Stage}

theorem of_board (h : s'.game.board = s.game.board) : s.StaysUntriggered s' := by
  intro hs
  rw [Untriggered, h]
  exact hs

theorem piece (id : PieceId) {f : Piece → Piece}
    (hf : ∀ p : Piece, p.Untriggered → (f p).Untriggered) :
    s.StaysUntriggered (s.map (·.changePiece id f)) := fun hs => hs.modify hf id

theorem erase (id : PieceId) : s.StaysUntriggered (s.map (·.changeBoard (·.erase id))) :=
  fun hs => Board.Every.erase hs id

theorem withdrawAll (as : List Passive) : s.StaysUntriggered (s.map (·.withdrawAll as)) := fun hs =>
  hs.becomes (Match.becomes_withdrawAll (fun _ h => h) (fun _ _ _ h h' hp => h' (h hp))
    (fun a _ => .clear a) as s.game)

theorem dropDisabled : s.StaysUntriggered (s.map (·.dropDisabled)) := fun hs =>
  withdrawAll (s := s.map (·.changeBoard (·.mapPieces (·.dropDisabled)))) _
    (hs.becomes (.mapPieces (fun _ => .dropDisabled) s.game.board))

end StaysUntriggered
end Stage

open Stage (StaysUntriggered)

namespace Play
variable {s s' : Stage}

/-- What goes by steps that bring no trigger brings none. -/
theorem Goes.untriggered {α : Type} {p : Play α} {a : α} (hp : Goes StaysUntriggered p)
    (h : p.run s = .ok (a, s')) (hs : s.Untriggered) : s'.Untriggered := by
  have hcourse := hp s a s' h
  clear h
  induction hcourse with
  | refl => exact hs
  | tail _ hlast ih => exact hlast ih

theorem untriggered_grant (id : PieceId) {sentence : Sentence}
    (hsentence : sentence.givesTrigger = false) (source : Option AbilityId)
    (duration : Option Nat) : Goes StaysUntriggered (grant id sentence source duration) := by
  refine .piece? fun p => ?_
  split
  · exact .pure _
  · dsimp only
    split
    · exact .pure _
    · exact .change fun _ => .piece id fun _ h => h.setGrants _ _
    · rename_i phrase _
      have hfresh : Goes StaysUntriggered freshId := by
        intro s n s' h
        obtain ⟨-, rfl⟩ := number_of_run h
        exact .single (.of_board rfl)
      exact hfresh.next fun _ => .change fun _ => .piece id fun _ =>
        .addPassive (phrase.givesTrigger_eq.symm.trans hsentence)
    · cases hsentence

end Play

theorem Inquiry.staysUntriggered (s s' : Stage) (h : Inquiry s s') : s.StaysUntriggered s' :=
  .of_board h.board

namespace Resolving

theorem untriggered_onEachPiece (targets : Collection) {f : Piece → Piece} (hf : Inscription f) :
    Goes StaysUntriggered (onEachPiece targets f) :=
  .look fun _ => (Goes.outcome _).next fun ids =>
    .lift (.foldl (fun id => .change fun _ => .piece id fun _ => .inscribe hf) ids)

theorem untriggered_applyPassive {a : Passive} (ha : a.effect.givesTrigger = false)
    (targets : Collection) : Goes StaysUntriggered (applyPassive a targets) := by
  obtain ⟨id, source, phrase, effect, duration, disabled, applied⟩ := a
  cases effect with
  | adjust scope modifier =>
    refine (goes_resolveModifier Inquiry.staysUntriggered modifier).next fun adjustment => ?_
    cases targets with
    | pieces ids => exact untriggered_onEachPiece _ (.adjust id scope adjustment)
    | cards cards =>
      dsimp only
      split
      · exact .lift (.foldl (f := fun c : Card => adjustCostOf id adjustment c.id) (fun c =>
          .change fun s => .of_board (Match.board_adjustCostOf id adjustment c.id s.game)) cards)
      · exact .pure _
    | players | hexes => exact .fail _
  | status phrase =>
    exact ((goes_statusKind phrase).mono Inquiry.staysUntriggered).next fun kind =>
      untriggered_onEachPiece targets (.addStatus ⟨id, kind⟩)
  | grant sentence =>
    unfold applyPassive
    dsimp only
    split
    · exact .pure _
    · exact .look fun _ => (Goes.outcome _).next fun ids =>
        .forM fun k => .lift (Play.untriggered_grant k ha (some id) none)
  | activated text actions =>
    exact untriggered_onEachPiece targets (.addActivation ⟨id, text, actions⟩)

end Resolving

namespace Play
variable {s s' : Stage}

/-- An ability of a board without triggers is itself none that gives one. -/
theorem untriggered_reapplyOne (owner : PieceId) (id : AbilityId) :
    Goes StaysUntriggered (reapplyOne owner id) := by
  intro s u s' h
  obtain ⟨-, rfl⟩ | ⟨p, a, hp, hfound, hreapplied⟩ := reapplied_of_run h
  · exact .refl
  refine .single fun hs => ?_
  have ha := (hs _ (Board.mem_of_get? hp)).passives a (List.mem_of_find?_eq_some hfound)
  have hset : ∀ (mid : Stage) (applied : Option Collection), mid.StaysUntriggered
      (mid.map (·.changePiece owner (·.changePassive a.id (·.setApplied applied)))) :=
    fun mid applied => .piece owner fun _ => .inscribe (.setApplied a.id applied)
  have hwithdrawn : (s.map (·.withdrawApplied a)).Untriggered := StaysUntriggered.withdrawAll [a] hs
  cases hreapplied with
  | disabled => exact hset _ _ hwithdrawn
  | enabled _ hinquired hrun =>
    have hfound := (StaysUntriggered.of_board (board_of_inquired hinquired)) hwithdrawn
    exact hset _ _ ((Resolving.untriggered_applyPassive ha _ _).untriggered hrun hfound)

theorem untriggered_reapply : Goes StaysUntriggered reapply := by
  refine .look fun m => (Goes.forM fun owner => ?_).next fun _ => .change fun _ => .dropDisabled
  refine .piece? fun p => ?_
  split
  · exact .pure _
  · exact .forM fun a => untriggered_reapplyOne owner a.id

end Play

theorem TakenOff.untriggered {s s' : Stage} {id : PieceId} {p : Piece} (h : TakenOff s id p s')
    (hs : s.Untriggered) : s'.Untriggered :=
  Play.untriggered_reapply.untriggered h.upkeep
    (StaysUntriggered.withdrawAll (s := s.map (·.changeBoard (·.erase id))) p.passives
      (StaysUntriggered.erase id hs))

/-! ### Events -/

namespace Play
variable {s : Stage} {run : Runner}

/-- Nothing answers. -/
theorem answersOf_untriggered (hs : s.Untriggered) (o : Occurrence) (ids : List PieceId) :
    (answersOf o ids).run s = .ok ([], s) := by
  induction ids with
  | nil => rfl
  | cons id ids ih =>
    have hrest : (answersOf o ids >>= fun rest => pure ([] ++ rest)).run s = .ok ([], s) := by
      rw [StateT.run_bind, ih]
      rfl
    have hpiece : (piece? id).run s = .ok (s.game.board.get? id, s) := rfl
    unfold answersOf
    rw [StateT.run_bind, hpiece]
    cases hp : s.game.board.get? id with
    | none => exact hrest
    | some p =>
      have hnone : p.triggers = [] := (hs _ (Board.mem_of_get? hp)).triggers
      show (answersAmong o id p.owner
        (p.triggers.filter fun t => !t.disabled && t.spec.event == o.event) >>= fun found => do
          return found ++ (← answersOf o ids)).run s = _
      rw [hnone]
      exact hrest

/-- An event has no effect but its own. -/
theorem occur_untriggered (hs : s.Untriggered) (o : Occurrence) (ctx : Context)
    (byDefault : Play Unit) : (occur run o ctx byDefault).run s = byDefault.run s := by
  have hlook : (occur run o ctx byDefault).run s = (do
      let answers ← answersOf o s.game.board.ids
      if !answers.any (·.trigger.overrides) then byDefault
      answers.forM fun a => run (o.context a.owner a.controller a.trigger ctx.interactive)
        a.trigger.actions).run s := rfl
  rw [hlook, StateT.run_bind, answersOf_untriggered hs]
  exact congrArg (·.run s) (bind_pure_unit (x := byDefault))

/-- What is only announced comes to nothing. -/
theorem silent_of_announced {s' : Stage} {o : Occurrence} {ctx : Context} {u : Unit}
    (h : (occur run o ctx (pure ())).run s = .ok (u, s')) (hs : s.Untriggered) : s' = s := by
  rw [occur_untriggered hs] at h
  cases h
  rfl

end Play
end HexDuel
