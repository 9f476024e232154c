import HexDuel.Proofs.Writing
import Mathlib.Data.List.Nodup

/-!
Whatever abilities have left is accounted for: an installed ability that has been applied answers
for it. When a pass of upkeep is over, it also reaches whatever bears what it has left.
-/

set_option autoImplicit false

namespace HexDuel

/-! ### Installed abilities -/

namespace Board

variable {b b' : Board} {o o' : PieceId} {a a' : Passive}

/-- An id tells the ability and its owner. -/
theorem Installed.unique (hb : b.abilityIds.Nodup) (h : b.Installed o a) (h' : b.Installed o' a')
    (hid : a'.id = a.id) : o' = o ∧ a' = a := by
  obtain ⟨p, hp, ha⟩ := h
  obtain ⟨p', hp', ha'⟩ := h'
  have hentries : (b.entries.flatMap fun e => e.2.abilityIds).Nodup := by
    have heq : b.abilityIds = b.entries.flatMap fun e => e.2.abilityIds := by
      simp [abilityIds, pieces, List.flatMap_map]
    exact heq ▸ hb
  obtain ⟨hown, hapart⟩ := List.nodup_flatMap.1 hentries
  have hmem : a.id ∈ p.abilityIds := List.mem_append_left _ (List.mem_map_of_mem ha)
  have hmem' : a.id ∈ p'.abilityIds :=
    List.mem_append_left _ (hid ▸ List.mem_map_of_mem (f := (·.id)) ha')
  have hall := List.Pairwise.forall_of_forall_of_flip (l := b.entries)
    (R := fun e e' : PieceId × Piece => a.id ∈ e.2.abilityIds ∧ a.id ∈ e'.2.abilityIds → e = e')
    (fun _ _ _ => rfl) (hapart.imp fun hdisjoint hn => (hdisjoint hn.1 hn.2).elim)
    (hapart.imp fun hdisjoint hn => (hdisjoint hn.2 hn.1).elim)
  have hsame : (o', p') = (o, p) := hall (mem_of_get? hp') (mem_of_get? hp) ⟨hmem', hmem⟩
  cases hsame
  have hpassives : (p.passives.map (·.id)).Nodup :=
    (List.nodup_append.1 (hown (o, p) (mem_of_get? hp))).1
  exact ⟨rfl, List.inj_on_of_nodup_map hpassives ha' ha hid⟩

end Board

variable {s s' : Stage}

theorem numbered_of_tended (hs : s.game.Numbered) (h : Relation.ReflTransGen Tending s s') :
    s'.game.Numbered := ((deeds_of_tended h).follows hs).1

theorem Match.Numbered.ids {m : Match} (hm : m.Numbered) : m.board.ids.Nodup :=
  (List.nodup_append.1 hm.nodup).1

theorem Match.Numbered.abilities {m : Match} (hm : m.Numbered) : m.board.abilityIds.Nodup :=
  (List.nodup_append.1 hm.nodup).2.1

/-! ### Accounts -/

/-- The cost of the card is charged by such abilities only. -/
def Card.ChargedBy (S : AbilityId → Prop) (card : Card) : Prop :=
  ∀ x ∈ card.costAdjustments, S x.ability

theorem stockable_chargedBy {F S : AbilityId → Prop} (h : ∀ id, F id → S id) :
    Stockable (Card.ChargedBy F) (Card.ChargedBy S) where
  plain card hplain x hx := by
    rw [hplain] at hx
    cases hx
  drawn card hcard x hx := h _ (hcard x hx)
  reprint _ _ _ hcard := hcard
  drop card id hcard x hx := hcard x (List.mem_filter.1 hx).1

theorem chargeable_chargedBy {S : AbilityId → Prop} {id : AbilityId} (h : S id) :
    Chargeable (Card.ChargedBy S) id := by
  intro card adjustment hcard x hx
  unfold Card.adjustCost at hx
  split at hx
  · exact hcard x hx
  · obtain hx | hx := List.mem_append.1 hx
    · exact hcard x hx
    · exact List.mem_singleton.1 hx ▸ h

namespace Match

/-- An installed ability answers for all that has been left on objects and on the costs of cards in
hand. It still reaches the object, as far as it need not be brought up to date. The ids in `F` are
those with which cards came into the match. -/
structure Accounted (F : AbilityId → Prop) (todo : PieceId → AbilityId → Prop) (m : Match) :
    Prop where
  bears : ∀ q id k, m.board.Bears q id k → ∃ o a, m.board.Installed o a ∧ a.id = id ∧ a.Leaves k ∧
    (m.board.Reaches a q ∨ todo o id)
  costs : m.Stocked (Card.ChargedBy F)
    (Card.ChargedBy fun id => F id ∨ m.board.Upholds id .adjustment)

/-- Anything may have to be brought up to date. -/
def Owed : PieceId → AbilityId → Prop := fun _ _ => True

variable {F : AbilityId → Prop} {todo todo' : PieceId → AbilityId → Prop} {m m' : Match}

theorem Accounted.mono (hm : m.Accounted F todo)
    (htodo : ∀ o a, m.board.Installed o a → todo o a.id → todo' o a.id) : m.Accounted F todo' where
  bears q id k hq := by
    obtain ⟨o, a, ha, rfl, hleaves, hreach⟩ := hm.bears q id k hq
    exact ⟨o, a, ha, rfl, hleaves, hreach.imp_right (htodo o a ha)⟩
  costs := hm.costs

theorem Accounted.owed (hm : m.Accounted F todo) : m.Accounted F Owed :=
  hm.mono fun _ _ _ _ => trivial

/-- Nothing is written and nobody is charged. -/
theorem Accounted.written {N : Passive → Prop} (hm : m.Accounted F Owed)
    (hboard : m.board.Written (fun _ _ _ => False) N m'.board)
    (hcosts : ∀ {D H}, Stockable D H → m.Stocked D H → m'.Stocked D H) : m'.Accounted F Owed where
  bears q id k hq := by
    obtain hbefore | hnew := hboard.bears q id k hq
    · obtain ⟨o, a, ha, hid, hleaves, -⟩ := hm.bears q id k hbefore
      obtain ⟨a', ha', hid', hleaves', -⟩ := hboard.answers ha hleaves
      exact ⟨o, a', ha', hid'.trans hid, hleaves', .inr trivial⟩
    · exact hnew.elim
  costs := by
    refine (hcosts (stockable_chargedBy fun _ => .inl) hm.costs).mono fun card hcard x hx => ?_
    exact (hcard x hx).imp_right hboard.upholds

/-! ### Abilities that go -/

end Match

/-- Nothing is written, and no other abilities go than these. -/
structure Board.Sheds (as : List Passive) (b b' : Board) : Prop where
  bears : ∀ q id k, b'.Bears q id k → b.Bears q id k
  keeps : ∀ o a, b.Installed o a →
    (∃ a', b'.Installed o a' ∧ a.SameFace a' ∧ a'.applied = a.applied) ∨ a ∈ as

namespace Match

variable {F : AbilityId → Prop} {todo todo' : PieceId → AbilityId → Prop} {m m' : Match}

/-- An ability that goes is withdrawn, and what it has left goes with it. -/
theorem Accounted.shed (hm : m.Accounted F todo) {f : Board → Board} {as : List Passive}
    (hsheds : m.board.Sheds as (f m.board))
    (hreach : ∀ {a a' : Passive} {o q}, a'.applied = a.applied →
      m.board.Reaches a q ∨ todo o a.id →
      ((m.changeBoard f).withdrawAll as).board.Reaches a' q ∨ todo' o a.id) :
    ((m.changeBoard f).withdrawAll as).Accounted F todo' := by
  have hwithdrawn := written_withdrawAll as (m.changeBoard f)
  have hstays : ∀ {o a k}, m.board.Installed o a → a.Leaves k →
      (∀ a' ∈ as, a'.Leaves k → a'.id ≠ a.id) →
      ∃ a', ((m.changeBoard f).withdrawAll as).board.Installed o a' ∧ a.SameFace a' ∧
        a'.applied = a.applied := by
    intro o a k ha hleaves hcleared
    obtain ⟨a', ha', hface, happlied⟩ | hgone := hsheds.keeps o a ha
    · obtain ⟨a'', ha'', hface', happlied'⟩ := hwithdrawn.keeps o a' ha'
      exact ⟨a'', ha'', hface.trans hface', happlied'.trans happlied⟩
    · exact absurd rfl (hcleared a hgone hleaves)
  refine ⟨fun q id k hq => ?_, ?_⟩
  · obtain ⟨hbefore, hcleared⟩ := bears_withdrawAll hq
    obtain ⟨o, a, ha, rfl, hleaves, hold⟩ := hm.bears q id k (hsheds.bears q id k hbefore)
    obtain ⟨a', ha', hface, happlied⟩ := hstays ha hleaves hcleared
    exact ⟨o, a', ha', hface.id, hface.leaves happlied hleaves, hreach happlied hold⟩
  · have hcosts : (m.changeBoard f).Stocked _ _ := hm.costs.of_seats rfl
    have hDH := stockable_chargedBy (F := F) (S := fun id => F id ∨ m.board.Upholds id .adjustment)
      fun _ => .inl
    refine (hcosts.withdrawAll hDH.drop as).mono fun card hcard x hx => ?_
    refine (hcard.1 x hx).imp_right fun hupheld => ?_
    obtain ⟨o, a, ha, hid, hleaves⟩ := hupheld
    obtain ⟨a', ha', hface, happlied⟩ := hstays ha hleaves fun a' ha' hk =>
      hid ▸ hcard.2 x hx a' ha' hk
    exact ⟨o, a', ha', hface.id.trans hid, hface.leaves happlied hleaves⟩

/-! ### An ability that is brought up to date -/

/-- While the ability is set aside, the others answer for all else, and what it has left is what it
leaves when it is applied to that. -/
structure Awaits (F : AbilityId → Prop) (todo : PieceId → AbilityId → Prop) (a : Passive)
    (applied : Option Collection) (m : Match) : Prop where
  bears : ∀ q id k, m.board.Bears q id k →
    (id ≠ a.id ∧ ∃ o a', m.board.Installed o a' ∧ a'.id = id ∧ a'.Leaves k ∧
      (m.board.Reaches a' q ∨ todo o id)) ∨
    id = a.id ∧ a.imprint = k ∧ ∃ targets, applied = some targets ∧ q ∈ targets.objectsOn m.board
  costs : m.Stocked (Card.ChargedBy F) (Card.ChargedBy fun id =>
    F id ∨ (id ≠ a.id ∧ m.board.Upholds id .adjustment) ∨
      id = a.id ∧ a.imprint = .adjustment ∧ applied.isSome = true)

/-- A withdrawal clears all that the ability has left. -/
theorem Accounted.awaits (hm : m.Accounted F todo) (hnumbered : m.Numbered) {owner : PieceId}
    {a : Passive} (ha : m.board.Installed owner a) :
    (m.withdrawApplied a).Awaits F todo a none := by
  have hwritten : m.board.Written (fun _ _ _ => False) (fun _ => False)
      (m.withdrawApplied a).board := written_withdrawAll [a] m
  have hplaces : m.board.Becomes Piece.SamePlace (m.withdrawApplied a).board :=
    becomes_withdrawApplied Piece.upkept_samePlace.refl a (Piece.upkept_samePlace.clear a) m
  have hown : ∀ {o a' k}, m.board.Installed o a' → a'.Leaves k → a'.id = a.id → a.Leaves k := by
    intro o a' k ha' hleaves hid
    exact (ha.unique hnumbered.abilities ha' hid).2 ▸ hleaves
  refine ⟨fun q id k hq => ?_, ?_⟩
  · obtain ⟨hbefore, hcleared⟩ := bears_withdrawApplied hq
    obtain ⟨o, a', ha', rfl, hleaves, hreach⟩ := hm.bears q id k hbefore
    obtain ⟨a'', ha'', hid', hleaves', happlied⟩ := hwritten.answers ha' hleaves
    refine .inl ⟨fun hid => hcleared (hown ha' hleaves hid) hid.symm, o, a'', ha'', hid',
      hleaves', ?_⟩
    exact hreach.imp_left fun h => h.becomes hplaces happlied
  · have hDH := stockable_chargedBy (F := F) (S := fun id => F id ∨ m.board.Upholds id .adjustment)
      fun _ => .inl
    refine (hm.costs.withdrawApplied hDH.drop a).mono fun card hcard x hx => ?_
    refine (hcard.1 x hx).imp_right fun hupheld => .inl ⟨fun hx' => ?_, hwritten.upholds hupheld⟩
    obtain ⟨o, a', ha', hid, hleaves⟩ := hupheld
    exact hcard.2 x hx (hown ha' hleaves (hid.trans hx')) hx'.symm

theorem Awaits.applies {a : Passive} {targets : Collection} (hm : m.Awaits F todo a none)
    (h : Resolving.Applies a targets m m') (hplaces : m.board.Becomes Piece.SamePlace m'.board) :
    m'.Awaits F todo a (some targets) := by
  refine ⟨fun q id k hq => ?_, ?_⟩
  · obtain hbefore | ⟨hq, hid, hk⟩ := h.written.bears q id k hq
    · obtain ⟨hid, o, a', ha', hid', hleaves, hreach⟩ | ⟨-, -, _, hnone, -⟩ :=
        hm.bears q id k hbefore
      · obtain ⟨a'', ha'', hid'', hleaves', happlied⟩ := h.written.answers ha' hleaves
        exact .inl ⟨hid, o, a'', ha'', hid''.trans hid', hleaves',
          hreach.imp_left fun h => h.becomes hplaces happlied⟩
      · cases hnone
    · exact .inr ⟨hid, hk.symm, targets, rfl, by rwa [hplaces.objectsOn_eq]⟩
  · let S : AbilityId → Prop := fun id => F id ∨ (id ≠ a.id ∧ m'.board.Upholds id .adjustment) ∨
      id = a.id ∧ a.imprint = .adjustment ∧ (some targets).isSome = true
    have hbefore : m.Stocked (Card.ChargedBy F) (Card.ChargedBy S) := by
      refine hm.costs.mono fun card hcard x hx => (hcard x hx).imp_right ?_
      rintro (⟨hid, hupheld⟩ | ⟨-, -, hnone⟩)
      · exact .inl ⟨hid, h.written.upholds hupheld⟩
      · cases hnone
    exact h.stocked (fun hk => chargeable_chargedBy (.inr (.inr ⟨rfl, hk, rfl⟩))) hbefore

end Match

/-! ### The record of what an ability is applied to -/

namespace Piece

variable {id : AbilityId} {f : Passive → Passive} {as : List Passive} {a : Passive}

theorem mem_changeFirst (h : a ∈ changeFirst id f as) : a ∈ as ∨ ∃ b ∈ as, a = f b := by
  induction as with
  | nil => exact .inl h
  | cons b bs ih =>
    unfold changeFirst at h
    split at h
    · obtain rfl | h := List.mem_cons.1 h
      · exact .inr ⟨b, List.mem_cons_self, rfl⟩
      · exact .inl (List.mem_cons_of_mem _ h)
    · obtain rfl | h := List.mem_cons.1 h
      · exact .inl List.mem_cons_self
      · exact (ih h).imp (List.mem_cons_of_mem _)
          (.imp fun _ hnew => ⟨List.mem_cons_of_mem _ hnew.1, hnew.2⟩)

theorem mem_changeFirst_of_ne (h : a ∈ as) (hid : a.id ≠ id) : a ∈ changeFirst id f as := by
  induction as with
  | nil => exact h
  | cons b bs ih =>
    unfold changeFirst
    split
    · rename_i hb
      obtain rfl | h := List.mem_cons.1 h
      · exact absurd (eq_of_beq hb) hid
      · exact List.mem_cons_of_mem _ h
    · obtain rfl | h := List.mem_cons.1 h
      · exact List.mem_cons_self
      · exact List.mem_cons_of_mem _ (ih h)

theorem mem_changeFirst_self (h : as.find? (·.id == id) = some a) : f a ∈ changeFirst id f as := by
  induction as with
  | nil => cases h
  | cons b bs ih =>
    unfold changeFirst
    rw [List.find?_cons] at h
    cases hb : b.id == id with
    | true =>
      rw [hb] at h
      cases h
      exact List.mem_cons_self
    | false =>
      rw [hb] at h
      exact List.mem_cons_of_mem _ (ih h)

theorem passive?_ne_none {p : Piece} (ha : a ∈ p.passives) : p.passive? a.id ≠ none :=
  fun hnone => by simpa using List.find?_eq_none.1 hnone a ha

theorem bears_setApplied {p : Piece} {applied : Option Collection} {i : AbilityId} {k : Imprint}
    (h : (p.changePassive id (·.setApplied applied)).Bears i k) : p.Bears i k := by
  cases k with
  | grant =>
    obtain ⟨a, ha, hsource, henabled⟩ | h := h
    · obtain ha | ⟨b, hb, rfl⟩ := mem_changeFirst ha
      · exact .inl ⟨a, ha, hsource, henabled⟩
      · exact .inl ⟨b, hb, hsource, henabled⟩
    · exact .inr h
  | _ => exact h

end Piece

namespace Match

variable {F : AbilityId → Prop} {todo todo' : PieceId → AbilityId → Prop} {m m' : Match}

/-- Once it is recorded what the ability is applied to, it answers for itself. -/
theorem Awaits.recorded {a b : Passive} {applied : Option Collection} {owner : PieceId} {p : Piece}
    (hm : m.Awaits F todo a applied) (hp : m.board.get? owner = some p)
    (hb : p.passive? a.id = some b) (hface : a.SameFace b) :
    (m.changePiece owner (·.changePassive a.id (·.setApplied applied))).Accounted F
      fun o id => todo o id ∧ ¬ (o = owner ∧ id = a.id) := by
  let b' := m.board.modify owner (·.changePassive a.id (·.setApplied applied))
  have hplaces : m.board.Becomes Piece.SamePlace b' :=
    .modify Piece.upkept_samePlace.refl (f := (·.changePassive a.id (·.setApplied applied)))
      (fun _ => ⟨rfl, rfl⟩) m.board owner
  have hbears : ∀ {q id k}, b'.Bears q id k → m.board.Bears q id k := by
    rintro q id k ⟨_, hq, hbears⟩
    rw [Board.get?_modify] at hq
    obtain ⟨x, hx, rfl⟩ := Option.map_eq_some_iff.1 hq
    refine ⟨x, hx, ?_⟩
    split at hbears
    · exact Piece.bears_setApplied hbears
    · exact hbears
  have hothers : ∀ {o a'}, m.board.Installed o a' → a'.id ≠ a.id → b'.Installed o a' := by
    rintro o a' ⟨x, hx, ha'⟩ hid
    refine ⟨_, (Board.get?_modify _ _ _ _).trans (congrArg _ hx), ?_⟩
    dsimp only
    split
    · exact Piece.mem_changeFirst_of_ne ha' hid
    · exact ha'
  have hself : b'.Installed owner (b.setApplied applied) :=
    ⟨_, (Board.get?_modify_self _ _ _).trans (congrArg _ hp), Piece.mem_changeFirst_self hb⟩
  have hcosts : (m.changePiece owner (·.changePassive a.id (·.setApplied applied))).Stocked _ _ :=
    hm.costs.of_seats rfl
  refine ⟨fun q id k hq => ?_, hcosts.mono fun card hcard x hx => (hcard x hx).imp_right ?_⟩
  · obtain ⟨hid, o, a', ha', hid', hleaves, hreach⟩ | ⟨rfl, hk, targets, rfl, hreached⟩ :=
      hm.bears q id k (hbears hq)
    · refine ⟨o, a', hothers ha' (hid' ▸ hid), hid', hleaves, ?_⟩
      exact hreach.imp (fun h => h.becomes hplaces rfl) fun h => ⟨h, fun heq => hid heq.2⟩
    · have hreached : q ∈ targets.objectsOn b' := by rwa [hplaces.objectsOn_eq]
      exact ⟨owner, _, hself, hface.id, ⟨rfl, hface.imprint.trans hk⟩,
        .inl ⟨targets, rfl, hreached⟩⟩
  · rintro (⟨hid, o, a', ha', hid', hleaves⟩ | ⟨hid, hk, happlied⟩)
    · exact ⟨o, a', hothers ha' (hid' ▸ hid), hid', hleaves⟩
    · exact ⟨owner, _, hself, hface.id.trans hid.symm, happlied, hface.imprint.trans hk⟩

/-- An installed ability is the one that is found under its id. -/
theorem Numbered.passive? (hm : m.Numbered) {o : PieceId} {a : Passive}
    (ha : m.board.Installed o a) : ∃ p, m.board.get? o = some p ∧ p.passive? a.id = some a := by
  obtain ⟨p, hp, hmem⟩ := ha
  refine ⟨p, hp, ?_⟩
  cases hfound : p.passive? a.id with
  | none => exact absurd hfound (Piece.passive?_ne_none hmem)
  | some b =>
    have hid : b.id = a.id := by simpa using List.find?_some hfound
    have hb : m.board.Installed o b := ⟨p, hp, List.mem_of_find?_eq_some hfound⟩
    rw [(Board.Installed.unique hm.abilities ⟨p, hp, hmem⟩ hb hid).2]

/-- One ability has been brought up to date. -/
theorem Accounted.reapplied (hs : s.game.Accounted F todo) (hnumbered : s.game.Numbered)
    {owner : PieceId} {a : Passive} (ha : s.game.board.Installed owner a)
    (h : Play.Reapplied owner a s s') :
    s'.game.Accounted F fun o id => todo o id ∧ ¬ (o = owner ∧ id = a.id) := by
  have hwithdrawn : Relation.ReflTransGen Tending s (s.map (·.withdrawApplied a)) :=
    .single (.withdrawApplied a)
  have hawaits : (s.map (·.withdrawApplied a)).game.Awaits F todo a none :=
    hs.awaits hnumbered ha
  obtain ⟨b, hb, hface, -⟩ := (written_withdrawAll [a] s.game).keeps owner a ha
  cases h with
  | disabled =>
    obtain ⟨p, hp, hfound⟩ := (numbered_of_tended hnumbered hwithdrawn).passive? hb
    exact hawaits.recorded hp (hface.id ▸ hfound) hface
  | @enabled targets ctx x found written _ hfind hrun =>
    have htended : Relation.ReflTransGen Tending (s.map (·.withdrawApplied a)) written :=
      (Relation.ReflTransGen.mono (fun _ _ => .inquiry) _ _ hfind).trans
        (Resolving.goes_applyPassive a targets _ _ _ _ hrun)
    have happlies := (Resolving.applies_of_run hrun).of_inquired hfind
    have hall := hawaits.applies happlies (Piece.upkept_samePlace.tended htended)
    obtain ⟨c, hc, hface', -⟩ := happlies.written.keeps owner b hb
    obtain ⟨p, hp, hfound⟩ :=
      (numbered_of_tended hnumbered (hwithdrawn.trans htended)).passive? hc
    have hid : c.id = a.id := hface'.id.trans hface.id
    exact hall.recorded hp (hid ▸ hfound) (hface.trans hface')

theorem Accounted.reapplyOne (hs : s.game.Accounted F todo) (hnumbered : s.game.Numbered)
    {owner : PieceId} {id : AbilityId} {u : Unit}
    (h : (Play.reapplyOne owner id).run s = .ok (u, s')) :
    s'.game.Accounted F fun o i => todo o i ∧ ¬ (o = owner ∧ i = id) := by
  obtain ⟨hnone, rfl⟩ | ⟨p, a, hp, hfound, hreapplied⟩ := Play.reapplied_of_run h
  · refine hs.mono fun o a ⟨p, hp, ha⟩ htodo => ⟨htodo, ?_⟩
    rintro ⟨rfl, rfl⟩
    exact Piece.passive?_ne_none ha (hnone p hp)
  · have hid : a.id = id := by simpa using List.find?_some hfound
    have ha : s.game.board.Installed owner a := ⟨p, hp, List.mem_of_find?_eq_some hfound⟩
    exact hid ▸ hs.reapplied hnumbered ha hreapplied

/-! ### A pass of upkeep -/

/-- The abilities of one object, one after the other. -/
theorem Accounted.reapplyEach {owner : PieceId} {as : List Passive} (hnumbered : s.game.Numbered)
    (hs : s.game.Accounted F fun o id => todo o id ∨ o = owner ∧ id ∈ as.map (·.id)) {u : Unit}
    (h : (as.forM fun a => Play.reapplyOne owner a.id).run s = .ok (u, s')) :
    s'.game.Accounted F todo := by
  induction as generalizing s with
  | nil =>
    cases h
    exact hs.mono fun _ _ _ htodo => htodo.resolve_right fun hmem => nomatch hmem.2
  | cons a as ih =>
    obtain ⟨_, s₁, hfirst, hrest⟩ := Play.run_bind h
    refine ih (numbered_of_tended hnumbered (Play.goes_reapplyOne _ _ _ _ _ hfirst)) ?_ hrest
    refine (hs.reapplyOne hnumbered hfirst).mono fun o b _ htodo => ?_
    refine htodo.1.imp_right fun ⟨ho, hb⟩ => ⟨ho, ?_⟩
    exact (List.mem_cons.1 hb).resolve_left fun heq => htodo.2 ⟨ho, heq⟩

theorem Accounted.reapplyOf {owner : PieceId} {rest : List PieceId} (hnumbered : s.game.Numbered)
    (hs : s.game.Accounted F fun o _ => o ∈ owner :: rest) {u : Unit}
    (h : (Play.reapplyOf owner).run s = .ok (u, s')) : s'.game.Accounted F fun o _ => o ∈ rest := by
  have hrest := Play.of_run_piece? h
  split at hrest
  · rename_i hnone
    cases hrest
    refine hs.mono fun o a ⟨p, hp, _⟩ ho => (List.mem_cons.1 ho).resolve_left ?_
    rintro rfl
    exact nomatch hnone.symm.trans hp
  · rename_i p hp
    refine Accounted.reapplyEach hnumbered (hs.mono fun o a ⟨q, hq, ha⟩ ho => ?_) hrest
    obtain rfl | ho := List.mem_cons.1 ho
    · obtain rfl := Option.some.inj (hp.symm.trans hq)
      exact .inr ⟨rfl, List.mem_map_of_mem ha⟩
    · exact .inl ho

theorem Accounted.reapplyAll {ids : List PieceId} (hnumbered : s.game.Numbered)
    (hs : s.game.Accounted F fun o _ => o ∈ ids) {u : Unit}
    (h : (ids.forM Play.reapplyOf).run s = .ok (u, s')) :
    s'.game.Accounted F fun _ _ => False := by
  induction ids generalizing s with
  | nil =>
    cases h
    exact hs.mono fun _ _ _ ho => nomatch ho
  | cons id ids ih =>
    obtain ⟨_, s₁, hfirst, hrest⟩ := Play.run_bind h
    exact ih (numbered_of_tended hnumbered (Play.goes_reapplyOf _ _ _ _ hfirst))
      (Accounted.reapplyOf hnumbered hs hfirst) hrest

end Match

/-! ### Objects and abilities that go -/

theorem Passive.tick_eq {a b : Passive} (h : a.tick = some b) :
    ∃ d, b = { a with duration := d } := by
  unfold tick at h
  split at h <;> cases h
  exact ⟨_, rfl⟩

theorem Trigger.tick_eq {t u : Trigger} (h : t.tick = some u) :
    ∃ d, u = { t with duration := d } := by
  unfold tick at h
  split at h <;> cases h
  exact ⟨_, rfl⟩

namespace Board

/-- Abilities go from all objects alike. -/
theorem sheds_mapPieces {f : Piece → Piece} {gone : Passive → Bool} (b : Board)
    (hbears : ∀ (p : Piece) id k, (f p).Bears id k → p.Bears id k)
    (hkeeps : ∀ (p : Piece) a, a ∈ p.passives →
      (∃ a' ∈ (f p).passives, a.SameFace a' ∧ a'.applied = a.applied) ∨ gone a = true) :
    b.Sheds (b.pieces.flatMap fun p => p.passives.filter gone) (b.mapPieces f) where
  bears q id k := by
    rintro ⟨_, hq, hp⟩
    rw [get?_mapPieces] at hq
    obtain ⟨p, hp', rfl⟩ := Option.map_eq_some_iff.1 hq
    exact ⟨p, hp', hbears p id k hp⟩
  keeps o a := by
    rintro ⟨p, hp, ha⟩
    obtain ⟨a', ha', hsame⟩ | hgone := hkeeps p a ha
    · refine .inl ⟨a', ⟨f p, ?_, ha'⟩, hsame⟩
      rw [get?_mapPieces, hp]
      rfl
    · have hmem : p ∈ b.pieces := List.mem_map_of_mem (f := Prod.snd) (mem_of_get? hp)
      exact .inr (List.mem_flatMap.2 ⟨p, hmem, List.mem_filter.2 ⟨ha, hgone⟩⟩)

theorem sheds_dropDisabled (b : Board) :
    b.Sheds (b.pieces.flatMap fun p => p.passives.filter (·.disabled))
      (b.mapPieces (·.dropDisabled)) := by
  refine b.sheds_mapPieces (fun p id k hq => ?_) fun p a ha => ?_
  · cases k with
    | grant =>
      exact hq.imp (fun ⟨a, ha, hsame⟩ => ⟨a, (List.mem_filter.1 ha).1, hsame⟩)
        fun ⟨t, ht, hsame⟩ => ⟨t, (List.mem_filter.1 ht).1, hsame⟩
    | _ => exact hq
  · cases hdisabled : a.disabled with
    | true => exact .inr rfl
    | false => exact .inl ⟨a, List.mem_filter.2 ⟨ha, by simp [hdisabled]⟩, .refl a, rfl⟩

theorem sheds_countDown (b : Board) :
    b.Sheds (b.pieces.flatMap fun p => p.passives.filter (·.tick.isNone))
      (b.mapPieces (·.countDown)) := by
  refine b.sheds_mapPieces (fun p id k hq => ?_) fun p a ha => ?_
  · cases k with
    | grant =>
      refine hq.imp (fun ⟨a', ha', hsame⟩ => ?_) fun ⟨t', ht', hsame⟩ => ?_
      · obtain ⟨a, ha, htick⟩ := List.mem_filterMap.1 ha'
        obtain ⟨d, rfl⟩ := Passive.tick_eq htick
        exact ⟨a, ha, hsame⟩
      · obtain ⟨t, ht, htick⟩ := List.mem_filterMap.1 ht'
        obtain ⟨d, rfl⟩ := Trigger.tick_eq htick
        exact ⟨t, ht, hsame⟩
    | _ => exact hq
  · cases htick : a.tick with
    | none => exact .inr rfl
    | some a' =>
      refine .inl ⟨a', List.mem_filterMap.2 ⟨a, ha, htick⟩, ?_⟩
      obtain ⟨d, rfl⟩ := Passive.tick_eq htick
      exact ⟨⟨rfl, rfl, rfl⟩, rfl⟩

theorem sheds_erase {b : Board} {id : PieceId} {p : Piece} (hp : b.get? id = some p) :
    b.Sheds p.passives (b.erase id) where
  bears q i k := by
    rintro ⟨x, hx, hbears⟩
    rw [get?_erase] at hx
    split at hx
    · cases hx
    · exact ⟨x, hx, hbears⟩
  keeps o a := by
    rintro ⟨x, hx, ha⟩
    by_cases ho : o = id
    · subst ho
      obtain rfl := Option.some.inj (hp.symm.trans hx)
      exact .inr ha
    · refine .inl ⟨a, ⟨x, ?_, ha⟩, .refl a, rfl⟩
      rw [get?_erase, if_neg ho, hx]

end Board

namespace Match

variable {F : AbilityId → Prop} {m m' : Match}

theorem Accounted.visited (hs : s.game.Accounted F Owed) (hnumbered : s.game.Numbered) {u : Unit}
    (h : (s.game.board.ids.forM Play.reapplyOf).run s = .ok (u, s')) :
    s'.game.Accounted F fun _ _ => False := by
  refine Accounted.reapplyAll hnumbered (hs.mono fun o a ⟨p, hp, _⟩ _ => ?_) h
  exact List.mem_map_of_mem (f := Prod.fst) (Board.mem_of_get? hp)

theorem Accounted.dropDisabled (hm : m.Accounted F fun _ _ => False) :
    m.dropDisabled.Accounted F fun _ _ => False := by
  refine hm.shed (Board.sheds_dropDisabled m.board) fun happlied hreach => ?_
  refine hreach.imp_left fun h => h.becomes ?_ happlied
  exact Piece.upkept_samePlace.withdrawAll Piece.upkept_samePlace.dropDisabled _ m

/-- Every ability has been visited, and none that is disabled is left to answer for anything. -/
theorem Accounted.reapply (hs : s.game.Accounted F Owed) (hnumbered : s.game.Numbered) {u : Unit}
    (h : Play.reapply.run s = .ok (u, s')) : s'.game.Accounted F fun _ _ => False := by
  obtain ⟨visited, hpass, rfl⟩ := Play.visited_of_reapply h
  exact (hs.visited hnumbered hpass).dropDisabled

/-- An object that goes is erased, and what its abilities have left goes with it. -/
theorem Accounted.erased {id : PieceId} {p : Piece} (hm : m.Accounted F Owed)
    (hp : m.board.get? id = some p) :
    ((m.changeBoard (·.erase id)).withdrawAll p.passives).Accounted F Owed :=
  hm.shed (Board.sheds_erase hp) fun _ _ => .inr trivial

theorem Numbered.erased (hm : m.Numbered) (id : PieceId) (as : List Passive) :
    ((m.changeBoard (·.erase id)).withdrawAll as).Numbered := by
  let s : Stage := ⟨m, []⟩
  have herased : (s.map (·.changeBoard (·.erase id))).game.Numbered :=
    ((Shift.erase id).renews hm).numbered hm
  exact numbered_of_tended herased
    (Play.goes_withdrawAll as (s.map (·.changeBoard (·.erase id))) () _ rfl)

theorem Accounted.takenOff {id : PieceId} {p : Piece} (hs : s.game.Accounted F Owed)
    (hnumbered : s.game.Numbered) (h : TakenOff s id p s') : s'.game.Accounted F Owed :=
  ((hs.erased h.held).reapply (hnumbered.erased id p.passives) h.upkeep).owed

/-- Nobody is charged and nothing is written when only the cards and the players change. -/
theorem Accounted.of_board {todo : PieceId → AbilityId → Prop} (hm : m.Accounted F todo)
    (hboard : m'.board = m.board)
    (hcosts : ∀ {D H}, Stockable D H → m.Stocked D H → m'.Stocked D H) : m'.Accounted F todo where
  bears := hboard ▸ hm.bears
  costs := by
    rw [hboard]
    exact hcosts (stockable_chargedBy fun _ => .inl) hm.costs

end Match

/-! ### Acts -/

variable {F : AbilityId → Prop}

theorem Buried.accounted {id : PieceId} (h : Buried id s s') (hs : s.game.Accounted F Match.Owed)
    (hnumbered : s.game.Numbered) : s'.game.Accounted F Match.Owed := by
  cases h with
  | gone => exact hs
  | discard h =>
    exact (hs.takenOff hnumbered h).of_board (Stage.board_discarded _ _ _) fun hDH hm =>
      hm.checkVictory.discard _ (hDH.plain _ rfl)

/-- A mark on an object touches nothing that abilities hold on it. -/
theorem Match.Accounted.marked {m : Match} (hm : m.Accounted F Match.Owed) (id : PieceId)
    {f : Piece → Piece} (hpassives : ∀ p : Piece, (f p).passives = p.passives)
    (hbears : ∀ (p : Piece) i k, (f p).Bears i k → p.Bears i k) :
    (m.changePiece id f).Accounted F Match.Owed := by
  refine hm.written (N := fun _ => False) ?_ fun _ hm => hm.of_seats rfl
  have hwritten : ∀ p : Piece, p.Written (fun _ _ => False) (fun _ => False) (f p) := fun p =>
    .of_passives (hpassives p) fun i k hq => .inl (hbears p i k hq)
  exact (Board.Written.modify hwritten m.board id).mono (fun _ _ _ => And.right) fun _ => False.elim

theorem Piece.bears_condemn {p : Piece} {i : AbilityId} {k : Imprint} (h : p.condemn.Bears i k) :
    p.Bears i k := by cases k <;> exact h

theorem Piece.bears_fall {p : Piece} {i : AbilityId} {k : Imprint} (h : p.fall.Bears i k) :
    p.Bears i k := by cases k <;> exact h

theorem Match.Accounted.condemned {m : Match} (hm : m.Accounted F Match.Owed) (id : PieceId) :
    (m.changePiece id (·.condemn)).Accounted F Match.Owed :=
  hm.marked id (fun _ => rfl) fun _ _ _ => Piece.bears_condemn

theorem Stage.Dooms.accounted {id : PieceId} {start : Stage} (h : s.Dooms id start) (card : Card)
    (hs : s.game.Accounted F Match.Owed) : (start.topple id card).game.Accounted F Match.Owed := by
  have hfall : start.game.Accounted F Match.Owed →
      (start.topple id card).game.Accounted F Match.Owed := fun hstart =>
    (hstart.marked id (f := (·.fall)) (fun _ => rfl) fun _ _ _ => Piece.bears_fall).of_board rfl
      fun _ hm => hm.of_seats rfl
  obtain rfl | rfl := h
  · exact hfall hs
  · exact hfall (hs.condemned id)

/-- Whatever an act leaves is accounted for, and what it takes away leaves nothing behind. -/
theorem Act.accounted (h : Act s s') (hnumbered : s.game.Numbered)
    (hs : s.game.Accounted F Match.Owed) : s'.game.Accounted F Match.Owed := by
  induction h with
  | refl s => exact hs
  | trans h _ ih ih' => exact ih' ((h.deeds.follows hnumbered).1) (ih hnumbered hs)
  | errand h => exact hs.written (N := fun _ => False) h.toured.written fun hDH => h.stocked hDH
  | reapply h => exact (hs.reapply hnumbered h).owed
  | install id sentence duration h =>
    obtain ⟨hwritten, hseats⟩ := Play.written_of_grant h
    refine hs.written (hwritten.mono ?_ fun _ h => h) fun _ hm => hm.of_seats hseats
    rintro q i k ⟨-, hnone, -⟩
    cases hnone
  | tickDurations s =>
    exact hs.shed (Board.sheds_countDown s.game.board) fun _ _ => .inr trivial
  | condemn id => exact hs.condemned id
  | @destroy id card s start fallen s' hdooms hact hburied ih =>
    have hbegun := hdooms.deeds card
    have htoppled := (hbegun.follows hnumbered).1
    have hfallen := ih htoppled (hdooms.accounted card hs)
    exact hburied.accounted hfallen ((hact.deeds.follows htoppled).1)
  | giveBack h =>
    exact (hs.takenOff hnumbered h).of_board (Stage.board_returned _ _ _) fun hDH hm =>
      hm.checkVictory.giveBack hDH _ _
  | @spawn target place side ctx ctx' cards card hex owner s found s' _ hresolve _ hinquired =>
    have hfound := Resolving.inquired_of_resolve hresolve
    have hasked := hfound.trans hinquired
    have hasked : s'.game.Accounted F Match.Owed :=
      hs.of_board (board_of_inquired hasked) fun _ hm => hm.inquired hasked
    exact hasked.written (N := fun _ => False) (s'.toured_place card hex owner false).written
      fun _ hm => hm.of_seats rfl

end HexDuel
