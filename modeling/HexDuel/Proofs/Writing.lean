import HexDuel.Proofs.Costs
import HexDuel.Proofs.Numbers

/-!
What one ability writes when it is brought up to date. All that it has left anywhere is cleared, and
then it writes on its targets and nowhere else.
-/

set_option autoImplicit false

namespace HexDuel

/-! ### Targets -/

/-- The objects that the collection stands for. -/
def Collection.objectsOn (b : Board) : Collection → List PieceId
  | .pieces ids => ids
  | .hexes xs => xs.filterMap b.idAt?
  | _ => []

theorem Collection.objectsOn_of_piecesIn {c : Collection} {m : Match} {ids : List PieceId}
    (h : c.piecesIn m = .ok ids) : c.objectsOn m.board = ids := by
  cases c <;> cases h <;> rfl

/-- The object is still the same one on the same cell. -/
def Piece.SamePlace (p q : Piece) : Prop := q.id = p.id ∧ q.hex = p.hex

theorem Piece.upkept_samePlace : Upkept SamePlace :=
  .of_rewritten (fun _ _ _ h h' => ⟨h'.1.trans h.1, h'.2.trans h.2⟩) fun p q h => by
    obtain ⟨_, _, _, _, _, rfl⟩ := h
    exact ⟨rfl, rfl⟩

namespace Board

theorem Becomes.idAt?_eq {b b' : Board} (h : b.Becomes Piece.SamePlace b') (hex : Hex) :
    b'.idAt? hex = b.idAt? hex := by
  obtain ⟨g, hg, rfl⟩ := h
  obtain ⟨es⟩ := b
  simp only [idAt?, pieceAt?, pieces]
  induction es with
  | nil => rfl
  | cons e es ih =>
    obtain ⟨hid, hhex⟩ := hg e
    simp only [List.map_cons, List.find?_cons, hhex]
    split
    · simp [hid]
    · exact ih

theorem Becomes.objectsOn_eq {b b' : Board} (h : b.Becomes Piece.SamePlace b') (c : Collection) :
    c.objectsOn b' = c.objectsOn b := by
  cases c with
  | hexes xs =>
    simp only [Collection.objectsOn]
    congr 1
    funext hex
    exact h.idAt?_eq hex
  | _ => rfl

/-- The object is among those that the ability has been applied to. -/
def Reaches (b : Board) (a : Passive) (q : PieceId) : Prop :=
  ∃ targets, a.applied = some targets ∧ q ∈ targets.objectsOn b

theorem Reaches.becomes {b b' : Board} {a a' : Passive} {q : PieceId} (h : b.Reaches a q)
    (hplaces : b.Becomes Piece.SamePlace b') (happlied : a'.applied = a.applied) :
    b'.Reaches a' q := by
  obtain ⟨targets, ha, hq⟩ := h
  exact ⟨targets, happlied.trans ha, by rwa [hplaces.objectsOn_eq]⟩

end Board

/-! ### Abilities that are given -/

/-- The ability is one that the sentence gives. -/
def Sentence.Gives (sentence : Sentence) (a : Passive) : Prop :=
  ∃ phrase, sentence = .setAbility phrase ∧ a.effect = phrase.effect

theorem Sentence.Gives.sameFace {sentence : Sentence} {a b : Passive} (h : sentence.Gives a)
    (hface : a.SameFace b) : sentence.Gives b := by
  obtain ⟨phrase, hsentence, heffect⟩ := h
  exact ⟨phrase, hsentence, hface.effect.trans heffect⟩

variable {s s' : Stage}

namespace Play

theorem written_of_grant {id : PieceId} {sentence : Sentence} {source : Option AbilityId}
    {duration : Option Nat} {u : Unit}
    (h : (grant id sentence source duration).run s = .ok (u, s')) :
    s.game.board.Written (fun q i k => q = id ∧ source = some i ∧ k = .grant) sentence.Gives
      s'.game.board ∧ s'.game.seats = s.game.seats := by
  have hrest := of_run_piece? h
  split at hrest
  · cases hrest
    exact ⟨.refl _, rfl⟩
  · rename_i p hp
    dsimp only at hrest
    split at hrest
    · cases hrest
      exact ⟨.refl _, rfl⟩
    · rename_i source' _ hsource
      cases hrest
      have hsource : source = some source' := (Option.filter_eq_some_iff.1 hsource).1
      exact ⟨.modify (V := fun i k => source = some i ∧ k = .grant)
        (fun p => p.written_setGrants source' false fun _ => ⟨hsource, rfl⟩) _ id, rfl⟩
    · rename_i phrase _
      obtain ⟨n, s₂, hfresh, hrest⟩ := run_bind hrest
      obtain ⟨rfl, rfl⟩ := number_of_run hfresh
      cases hrest
      exact ⟨.modify (V := fun i k => source = some i ∧ k = .grant)
        (fun p => p.written_addPassive ⟨phrase, rfl, rfl⟩ fun _ hsource => ⟨hsource, rfl⟩)
        _ id, rfl⟩
    · obtain ⟨n, s₂, hfresh, hrest⟩ := run_bind hrest
      obtain ⟨rfl, rfl⟩ := number_of_run hfresh
      cases hrest
      exact ⟨.modify (V := fun i k => source = some i ∧ k = .grant)
        (fun p => p.written_addTrigger fun _ hsource => ⟨hsource, rfl⟩) _ id, rfl⟩

end Play

/-! ### Applications -/

namespace Resolving

/-- What is written on each of some objects, one after the other. -/
theorem written_foldl {V : AbilityId → Imprint → Prop} {f : Piece → Piece}
    (hf : ∀ p : Piece, p.Written V (fun _ => False) (f p)) (ids : List PieceId) (m : Match) :
    m.board.Written (fun q i k => q ∈ ids ∧ V i k) (fun _ => False)
      (ids.foldl (fun m id => m.changePiece id f) m).board ∧
    (ids.foldl (fun m id => m.changePiece id f) m).seats = m.seats := by
  induction ids generalizing m with
  | nil => exact ⟨.refl _, rfl⟩
  | cons id ids ih =>
    obtain ⟨hrest, hseats⟩ := ih (m.changePiece id f)
    have hfirst := Board.Written.modify hf m.board id
    refine ⟨(hfirst.mono ?_ fun _ => False.elim).trans (hrest.mono ?_ fun _ => False.elim)
      fun _ _ _ => False.elim, hseats⟩
    · rintro q i k ⟨rfl, hV⟩
      exact ⟨List.mem_cons_self, hV⟩
    · rintro q i k ⟨hq, hV⟩
      exact ⟨List.mem_cons_of_mem _ hq, hV⟩

theorem inscribed_of_onEachPiece {targets : Collection} {f : Piece → Piece} {ctx : Context}
    {x : Unit × Context} (h : ((onEachPiece targets f).run ctx).run s = .ok (x, s')) :
    s'.game = (targets.objectsOn s.game.board).foldl (fun m id => m.changePiece id f) s.game := by
  have hlater := of_run_look h
  obtain ⟨ids, ctx₂, s₂, hfind, hwrite⟩ := run_bind hlater
  obtain ⟨hids, rfl⟩ := Play.of_run_lift (of_run_lift hfind)
  cases hwrite
  rw [Collection.objectsOn_of_piecesIn hids]

theorem written_of_onEachPiece {V : AbilityId → Imprint → Prop} {f : Piece → Piece}
    (hf : ∀ p : Piece, p.Written V (fun _ => False) (f p)) {targets : Collection} {ctx : Context}
    {x : Unit × Context} (h : ((onEachPiece targets f).run ctx).run s = .ok (x, s')) :
    s.game.board.Written (fun q i k => q ∈ targets.objectsOn s.game.board ∧ V i k) (fun _ => False)
      s'.game.board ∧ s'.game.seats = s.game.seats := by
  rw [inscribed_of_onEachPiece h]
  exact written_foldl hf _ s.game

theorem written_of_grants {source : AbilityId} {sentence : Sentence} {ids : List PieceId}
    {ctx : Context} {x : Unit × Context}
    (h : ((ids.forM fun id => (Play.grant id sentence (some source) none : Play Unit) :
      Resolving Unit).run ctx).run s = .ok (x, s')) :
    s.game.board.Written (fun q i k => q ∈ ids ∧ i = source ∧ k = .grant) sentence.Gives
      s'.game.board ∧ s'.game.seats = s.game.seats := by
  induction ids generalizing s ctx with
  | nil =>
    cases h
    exact ⟨.refl _, rfl⟩
  | cons id ids ih =>
    obtain ⟨_, ctx₁, s₁, hfirst, hrest⟩ := run_bind h
    obtain ⟨hgiven, hseats⟩ := Play.written_of_grant (of_run_lift hfirst)
    obtain ⟨hothers, hseats'⟩ := ih hrest
    refine ⟨(hgiven.mono ?_ fun _ h => h).trans (hothers.mono ?_ fun _ h => h)
      fun _ _ hface hgives => hgives.sameFace hface, hseats'.trans hseats⟩
    · rintro q i k ⟨rfl, hsource, hk⟩
      exact ⟨List.mem_cons_self, (Option.some.inj hsource).symm, hk⟩
    · rintro q i k ⟨hq, hi, hk⟩
      exact ⟨List.mem_cons_of_mem _ hq, hi, hk⟩

/-- The ability is one that the passive ability gives its targets. -/
def Gives (a b : Passive) : Prop := ∃ sentence, a.effect = .grant sentence ∧ sentence.Gives b

/-- What an application does: it writes on the targets, and charges cards, if anything, under the id
of the ability. -/
structure Applies (a : Passive) (targets : Collection) (m m' : Match) : Prop where
  written : m.board.Written (fun q i k => q ∈ targets.objectsOn m.board ∧ i = a.id ∧ k = a.imprint)
    (Gives a) m'.board
  stocked : ∀ {D H}, (a.imprint = .adjustment → Chargeable H a.id) → m.Stocked D H → m'.Stocked D H

theorem Applies.of_inquired {a : Passive} {targets : Collection} {m' : Match} {found : Stage}
    (hinquired : Relation.ReflTransGen Inquiry s found) (h : Applies a targets found.game m') :
    Applies a targets s.game m' := by
  have hboard := board_of_inquired hinquired
  exact ⟨hboard ▸ h.written, fun hcharge hs => h.stocked hcharge (hs.inquired hinquired)⟩

theorem Applies.of_onEachPiece {a : Passive} {targets : Collection} {f : Piece → Piece}
    (hf : ∀ p : Piece, p.Written (fun i k => i = a.id ∧ k = a.imprint) (fun _ => False) (f p))
    {ctx : Context} {x : Unit × Context}
    (h : ((onEachPiece targets f).run ctx).run s = .ok (x, s')) :
    Applies a targets s.game s'.game := by
  obtain ⟨hwritten, hseats⟩ := written_of_onEachPiece hf h
  exact ⟨hwritten.mono (fun _ _ _ h => h) fun _ => False.elim, fun _ hs => hs.of_seats hseats⟩

theorem stocked_adjustCosts {D H : Card → Prop} {ability : AbilityId}
    (hcharge : Chargeable H ability) (adjustment : Adjustment) (cards : List Card) {m : Match}
    (hm : m.Stocked D H) : (adjustCosts m ability adjustment cards).Stocked D H := by
  unfold adjustCosts
  induction cards generalizing m with
  | nil => exact hm
  | cons card cards ih => exact ih (hm.adjustCostOf hcharge adjustment card.id)

/-- Charging cards writes nothing on the board. -/
theorem applies_adjustCosts {a : Passive} (ha : a.imprint = .adjustment) (adjustment : Adjustment)
    (cards : List Card) (m : Match) :
    Applies a (.cards cards) m (adjustCosts m a.id adjustment cards) := by
  have hboard : (adjustCosts m a.id adjustment cards).board = m.board :=
    Match.board_foldl (f := fun card : Card => adjustCostOf a.id adjustment card.id)
      (fun card m => Match.board_adjustCostOf a.id adjustment card.id m) cards m
  exact ⟨hboard.symm ▸ .refl _, fun hcharge hm =>
    stocked_adjustCosts (hcharge ha) adjustment cards hm⟩

theorem applies_of_grants {a : Passive} {sentence : Sentence} (ha : a.effect = .grant sentence)
    {targets : Collection} {ctx : Context} {x : Unit × Context}
    (h : ((do
      let ids ← targets.piecesIn (← game)
      ids.forM fun id => (Play.grant id sentence (some a.id) none : Play Unit) :
        Resolving Unit).run ctx).run s = .ok (x, s')) : Applies a targets s.game s'.game := by
  have himprint : a.imprint = .grant := by rw [Passive.imprint, ha]
  have hlater := of_run_look h
  obtain ⟨ids, ctx₂, s₂, hfind, hgrants⟩ := run_bind hlater
  obtain ⟨hids, rfl⟩ := Play.of_run_lift (of_run_lift hfind)
  obtain ⟨hwritten, hseats⟩ := written_of_grants hgrants
  refine ⟨hwritten.mono ?_ fun b hb => ⟨sentence, ha, hb⟩, fun _ hs => hs.of_seats hseats⟩
  rintro q i k ⟨hq, hi, hk⟩
  exact ⟨Collection.objectsOn_of_piecesIn hids ▸ hq, hi, hk.trans himprint.symm⟩

theorem applies_of_run {a : Passive} {targets : Collection} {ctx : Context} {x : Unit × Context}
    (h : ((applyPassive a targets).run ctx).run s = .ok (x, s')) :
    Applies a targets s.game s'.game := by
  obtain ⟨id, source, phrase, effect, duration, disabled, applied⟩ := a
  cases effect with
  | adjust scope modifier =>
    obtain ⟨adjustment, ctx₁, found, hfind, hrest⟩ := run_bind h
    refine .of_inquired (goes_resolveModifier (fun _ _ h => h) modifier _ _ _ _ hfind) ?_
    cases targets with
    | pieces ids =>
      exact .of_onEachPiece (fun p => p.written_adjust id scope adjustment ⟨rfl, rfl⟩) hrest
    | cards cards =>
      dsimp only at hrest
      split at hrest
      · cases hrest
        exact applies_adjustCosts rfl adjustment cards found.game
      · cases hrest
        exact ⟨.refl _, fun _ hs => hs⟩
    | players | hexes => cases hrest
  | status phrase =>
    obtain ⟨kind, ctx₁, found, hfind, hrest⟩ := run_bind h
    refine .of_inquired (goes_statusKind phrase _ _ _ _ hfind) ?_
    exact .of_onEachPiece (fun p => p.written_addStatus ⟨id, kind⟩ ⟨rfl, rfl⟩) hrest
  | grant sentence =>
    unfold applyPassive at h
    dsimp only at h
    split at h
    · cases h
      exact ⟨.refl _, fun _ hs => hs⟩
    · exact applies_of_grants rfl h
  | activated text actions =>
    exact .of_onEachPiece (fun p => p.written_addActivation ⟨id, text, actions⟩ ⟨rfl, rfl⟩) h

end Resolving

/-! ### One ability -/

namespace Play

theorem of_run' {α : Type} {r : Resolving α} {ctx : Context} {a : α}
    (h : (StateT.run' r ctx).run s = .ok (a, s')) : ∃ x, (r.run ctx).run s = .ok (x, s') := by
  have hbind : (r.run ctx >>= fun x => pure x.1 : Play α).run s = .ok (a, s') := h
  obtain ⟨x, s₁, hrun, hend⟩ := run_bind hbind
  cases hend
  exact ⟨x, hrun⟩

/-- What becomes of an ability of the owner that is brought up to date: it is withdrawn, and unless
it is disabled it is applied to what its targets stand for now. -/
inductive Reapplied (owner : PieceId) (a : Passive) (s : Stage) : Stage → Prop where
  | disabled : a.disabled = true → Reapplied owner a s ((s.map (·.withdrawApplied a)).map
      (·.changePiece owner (·.changePassive a.id (·.setApplied none))))
  | enabled {targets : Collection} {ctx : Context} {x : Unit × Context} {found written : Stage} :
    a.disabled = false → Relation.ReflTransGen Inquiry (s.map (·.withdrawApplied a)) found →
    ((Resolving.applyPassive a targets).run ctx).run found = .ok (x, written) →
    Reapplied owner a s (written.map
      (·.changePiece owner (·.changePassive a.id (·.setApplied (some targets)))))

theorem reapplied_of_run {owner : PieceId} {id : AbilityId} {u : Unit}
    (h : (reapplyOne owner id).run s = .ok (u, s')) :
    (∀ p, s.game.board.get? owner = some p → p.passive? id = none) ∧ s' = s ∨
      ∃ p a, s.game.board.get? owner = some p ∧ p.passive? id = some a ∧
        Reapplied owner a s s' := by
  have hrest := of_run_piece? h
  cases hfound : (s.game.board.get? owner).bind (·.passive? id) with
  | none =>
    rw [hfound] at hrest
    cases hrest
    refine .inl ⟨fun p hp => ?_, rfl⟩
    rwa [hp] at hfound
  | some a =>
    obtain ⟨p, hp, ha⟩ := Option.bind_eq_some_iff.1 hfound
    have hid : a.id = id := by simpa using List.find?_some ha
    rw [hfound] at hrest
    obtain ⟨_, s₁, hwithdraw, hthen⟩ := run_bind hrest
    cases hwithdraw
    refine .inr ⟨p, a, hp, ha, ?_⟩
    subst hid
    dsimp only at hthen
    split at hthen
    · rename_i hdisabled
      cases hthen
      exact .disabled hdisabled
    · rename_i hdisabled
      have hresolve := of_run_look hthen
      obtain ⟨⟨targets, ctx⟩, found, hfind, happly⟩ := run_bind hresolve
      obtain ⟨_, written, hwritten, hset⟩ := run_bind happly
      obtain ⟨x, hrun⟩ := of_run' hwritten
      cases hset
      exact .enabled (by simpa using hdisabled)
        (Resolving.inquired_of_resolve hfind) hrun

/-- Upkeep visits every ability of every object, and drops in the end what is disabled. -/
theorem visited_of_reapply {u : Unit} (h : reapply.run s = .ok (u, s')) :
    ∃ visited, (s.game.board.ids.forM reapplyOf).run s = .ok ((), visited) ∧
      s' = visited.map (·.dropDisabled) := by
  have hlook : (do
      s.game.board.ids.forM reapplyOf
      change (·.dropDisabled) : Play Unit).run s = .ok (u, s') := h
  obtain ⟨_, visited, hpass, hdrop⟩ := run_bind hlook
  cases hdrop
  exact ⟨visited, hpass, rfl⟩

end Play
end HexDuel
