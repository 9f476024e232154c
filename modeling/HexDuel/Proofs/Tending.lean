import HexDuel.Proofs.DeedsTargets

/-!
Upkeep only tends: abilities are withdrawn, written and given, and nothing else becomes of the
objects and the cards. What is taken off the board is tended away with all that it wrote.
-/

set_option autoImplicit false

namespace HexDuel

namespace Play

/-- An ability is given under a number of its own. -/
theorem goes_withNumber (id : PieceId) {f : Nat → Piece → Piece}
    (h : ∀ s : Stage, Tending s (s.number.map (·.changePiece id (f (s.game.lastId + 1))))) :
    Goes Tending (freshId >>= fun n => change (·.changePiece id (f n))) := by
  intro s a s' hrun
  obtain ⟨n, s₁, hfresh, hrest⟩ := run_bind hrun
  obtain ⟨rfl, rfl⟩ := number_of_run hfresh
  cases hrest
  exact .single (h s)

theorem goes_grant (id : PieceId) (sentence : Sentence) (source : Option AbilityId)
    (duration : Option Nat) : Goes Tending (grant id sentence source duration) := by
  refine .piece? fun p => ?_
  split
  · exact .pure _
  · dsimp only
    split
    · exact .pure _
    · exact .change fun _ => .inscribe id (.setGrants _ false)
    · exact goes_withNumber id fun _ => .addPassive id rfl rfl
    · exact goes_withNumber id fun _ => .addTrigger id rfl rfl

end Play

namespace Resolving

theorem goes_statusKind (phrase : StatusPhrase) : Goes Inquiry (statusKind phrase) := by
  cases phrase with
  | canOnlyAttack target => exact (goes_resolvePieces (fun _ _ h => h) target).next fun _ => .pure _
  | _ => exact .pure _

theorem goes_onEachPiece (targets : Collection) {f : Piece → Piece} (hf : Inscription f) :
    Goes Tending (onEachPiece targets f) :=
  .look fun _ => (Goes.outcome _).next fun ids =>
    .lift (.foldl (fun id => .change fun _ => .inscribe id hf) ids)

theorem goes_applyPassive (a : Passive) (targets : Collection) :
    Goes Tending (applyPassive a targets) := by
  unfold applyPassive
  split
  · refine (goes_resolveModifier (fun _ _ => .inquiry) _).next fun adjustment => ?_
    split
    · exact goes_onEachPiece _ (.adjust a.id _ adjustment)
    · split
      · exact .lift (.foldl (fun c : Card => .change fun _ => .adjustCostOf a.id adjustment c.id) _)
      · exact .pure _
    · exact .fail _
  · exact ((goes_statusKind _).mono fun _ _ => .inquiry).next fun _ =>
      goes_onEachPiece _ (.addStatus _)
  · split
    · exact .pure _
    · exact .look fun _ => (Goes.outcome _).next fun ids =>
        .forM fun id => .lift (Play.goes_grant id _ _ _)
  · exact goes_onEachPiece _ (.addActivation _)

end Resolving

namespace Play

theorem goes_withdrawAll (as : List Passive) : Goes Tending (change (·.withdrawAll as)) :=
  .foldl (fun a => .change fun _ => .withdrawApplied a) as

theorem goes_reapplyOne (owner : PieceId) (id : AbilityId) :
    Goes Tending (reapplyOne owner id) := by
  refine .piece? fun p => ?_
  split
  · exact .pure _
  · rename_i a _
    have hwrite : ∀ applied, Goes Tending (change (·.changePiece owner
        (·.changePassive id (·.setApplied applied)))) := fun applied =>
      .change fun _ => .inscribe owner (.setApplied id applied)
    refine Goes.next (.change fun _ => .withdrawApplied a) fun _ => ?_
    dsimp only
    split
    · exact hwrite none
    · refine .look fun m => ?_
      refine (Resolving.goes_resolve (fun _ _ => .inquiry) a.targets _).next fun x => ?_
      exact ((Resolving.goes_applyPassive a x.1).run' x.2).next fun _ => hwrite (some x.1)

theorem goes_reapplyOf (owner : PieceId) : Goes Tending (reapplyOf owner) := by
  refine .piece? fun p => ?_
  split
  · exact .pure _
  · exact .forM fun a => goes_reapplyOne owner a.id

theorem goes_reapply : Goes Tending reapply :=
  .look fun _ => (Goes.forM goes_reapplyOf).next fun _ => .change fun _ => .dropDisabled

end Play

/-- The object is off the board, with what its abilities wrote, and the rest is up to date. -/
structure TakenOff (s : Stage) (id : PieceId) (p : Piece) (s' : Stage) : Prop where
  held : s.game.board.get? id = some p
  upkeep : Play.reapply.run
    (s.map fun m => (m.changeBoard (·.erase id)).withdrawAll p.passives) = .ok ((), s')

theorem TakenOff.removed {s s' : Stage} {id : PieceId} {p : Piece} (h : TakenOff s id p s') :
    Removed s id p s' := by
  refine ⟨h.held, ?_⟩
  have hwithdrawn := Play.goes_withdrawAll p.passives (s.map (·.changeBoard (·.erase id))) () _ rfl
  exact hwithdrawn.trans (Play.goes_reapply _ _ _ h.upkeep)

namespace Play

theorem takenOff_of_run {id : PieceId} {r : Option Piece} {s s' : Stage}
    (h : (removePiece id).run s = .ok (r, s')) :
    r = none ∧ s' = s ∧ s.game.board.get? id = none ∨
      ∃ p mid, r = some p ∧ TakenOff s id p mid ∧ s' = mid.map (·.checkVictory) := by
  have hrest := of_run_piece? h
  split at hrest
  · rename_i hnone
    cases hrest
    exact .inl ⟨rfl, rfl, hnone⟩
  · rename_i p hp
    obtain ⟨_, s₁, herase, hrest⟩ := run_bind hrest
    cases herase
    obtain ⟨_, s₂, hwithdraw, hrest⟩ := run_bind hrest
    cases hwithdraw
    obtain ⟨_, s₃, hreapply, hrest⟩ := run_bind hrest
    cases hrest
    exact .inr ⟨p, s₃, rfl, ⟨hp, hreapply⟩, rfl⟩

end Play
end HexDuel
