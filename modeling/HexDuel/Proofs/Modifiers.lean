import HexDuel.Proofs.Accounts
import HexDuel.Proofs.Holdings
import HexDuel.Proofs.Keeping

/-!
No modifier is left over. In every match whose cards come without adjustments of their costs, all
that stands on objects and on the costs of cards in hand is upheld by an installed ability, and no
ability contributes to any of them more than once.
-/

set_option autoImplicit false

namespace HexDuel

/-! ### Once each -/

/-- No ability contributes more than one adjustment of an attribute, one status and one activation,
and the card is as it was printed. -/
structure Piece.Tidy (p : Piece) : Prop where
  adjustments : (p.adjustments.map fun x => (x.ability, x.stat)).Nodup
  statuses : (p.statuses.map (·.ability)).Nodup
  activations : (p.activations.map (·.ability)).Nodup
  card : p.card.costAdjustments = []

/-- No ability contributes more than one adjustment of the cost. -/
def Card.Tidy (card : Card) : Prop := (card.costAdjustments.map (·.ability)).Nodup

/-- What comes with a key that none has yet. -/
theorem List.nodup_map_concat {α β : Type} [BEq β] [LawfulBEq β] {f : α → β} {xs : List α} {x : α}
    (hxs : (xs.map f).Nodup) (hx : xs.any (fun y => f y == f x) = false) :
    ((xs ++ [x]).map f).Nodup := by
  rw [List.map_append, List.map_singleton]
  refine List.nodup_append.2 ⟨hxs, List.nodup_singleton _, fun a ha b hb => ?_⟩
  obtain ⟨y, hy, rfl⟩ := List.mem_map.1 ha
  obtain rfl := List.mem_singleton.1 hb
  simpa using List.any_eq_false.1 hx y hy

namespace Piece

variable {p : Piece}

theorem Tidy.adjust (hp : p.Tidy) (ability : AbilityId) (scope : Scope) (adjustment : Adjustment) :
    (p.adjust ability scope adjustment).Tidy := by
  unfold Piece.adjust
  split
  · exact hp
  · rename_i hnone
    refine ⟨?_, hp.statuses, hp.activations, hp.card⟩
    rw [List.map_append, List.map_map]
    refine List.nodup_append.2 ⟨hp.adjustments, ?_, fun a ha b hb heq => hnone ?_⟩
    · exact scope.nodup_attributes.map fun x y h => Option.some.inj (congrArg Prod.snd h)
    · obtain ⟨x, hx, rfl⟩ := List.mem_map.1 ha
      obtain ⟨stat, -, rfl⟩ := List.mem_map.1 hb
      exact List.any_eq_true.2 ⟨x, hx, by simpa using congrArg Prod.fst heq⟩

theorem Tidy.addStatus (hp : p.Tidy) (status : Status) : (p.addStatus status).Tidy := by
  unfold Piece.addStatus
  split
  · exact hp
  · rename_i hnone
    exact ⟨hp.adjustments, List.nodup_map_concat hp.statuses (by simpa using hnone), hp.activations,
      hp.card⟩

theorem Tidy.addActivation (hp : p.Tidy) (activation : Activation) :
    (p.addActivation activation).Tidy := by
  unfold Piece.addActivation
  split
  · exact hp
  · rename_i hnone
    exact ⟨hp.adjustments, hp.statuses,
      List.nodup_map_concat hp.activations (by simpa using hnone), hp.card⟩

theorem Tidy.clear (hp : p.Tidy) (a : Passive) : (a.clear p).Tidy := by
  unfold Passive.clear
  split
  · exact ⟨(List.filter_sublist.map _).nodup hp.adjustments, hp.statuses, hp.activations, hp.card⟩
  · exact ⟨hp.adjustments, (List.filter_sublist.map _).nodup hp.statuses, hp.activations, hp.card⟩
  · exact ⟨hp.adjustments, hp.statuses, hp.activations, hp.card⟩
  · exact ⟨hp.adjustments, hp.statuses, (List.filter_sublist.map _).nodup hp.activations, hp.card⟩

theorem Tidy.of_same {q : Piece} (hp : p.Tidy) (hadjustments : q.adjustments = p.adjustments)
    (hstatuses : q.statuses = p.statuses) (hactivations : q.activations = p.activations)
    (hcard : q.card = p.card) : q.Tidy :=
  ⟨hadjustments ▸ hp.adjustments, hstatuses ▸ hp.statuses, hactivations ▸ hp.activations,
    hcard ▸ hp.card⟩

theorem kept_tidy : Kept Tidy where
  comes _ _ _ _ _ := ⟨.nil, .nil, .nil, rfl⟩
  intact _ _ h hp := hp.of_same h.adjustments h.statuses h.activations h.card
  upkept := {
    refl := fun _ hp => hp
    trans := fun _ _ _ h h' hp => h' (h hp)
    inscribe := fun h _ hp => by
      cases h with
      | adjust ability scope adjustment => exact hp.adjust ability scope adjustment
      | addStatus status => exact hp.addStatus status
      | addActivation activation => exact hp.addActivation activation
      | _ => exact hp.of_same rfl rfl rfl rfl
    clear := fun a _ hp => hp.clear a
    dropDisabled := fun _ hp => hp.of_same rfl rfl rfl rfl
    addPassive := fun _ _ _ hp => hp.of_same rfl rfl rfl rfl
    addTrigger := fun _ _ _ hp => hp.of_same rfl rfl rfl rfl }
  countDown _ hp := hp.of_same rfl rfl rfl rfl
  condemn _ hp := hp.of_same rfl rfl rfl rfl
  fall _ hp := hp.of_same rfl rfl rfl rfl

end Piece

namespace Card

theorem stockable_tidy : Stockable (fun card => card.costAdjustments = []) Tidy where
  plain _ h := h
  drawn card h := by
    unfold Tidy
    rw [h]
    exact .nil
  reprint _ _ _ h := h
  drop _ _ h := (List.filter_sublist.map _).nodup h

theorem chargeable_tidy (id : AbilityId) : Chargeable Tidy id := by
  intro card adjustment hcard
  unfold adjustCost
  split
  · exact hcard
  · rename_i hnone
    exact List.nodup_map_concat (x := ⟨id, none, adjustment⟩) hcard (by simpa using hnone)

end Card

/-! ### How a match begins -/

namespace MatchSetup

variable {s : MatchSetup} {m : Match}

theorem mem_undrawn_tableOf {c : Color} {card : Card} (h : card ∈ (s.tableOf.seat c).deck) :
    card ∈ s.tableOf.undrawn := by
  unfold Match.undrawn
  split
  · cases c with
    | blue => exact List.mem_append_left _ h
    | orange => exact List.mem_append_right _ h
  · rename_i hshared
    cases c with
    | blue => exact h
    | orange => exact s.shared_tableOf hshared ▸ h

/-- Cards are dealt in under ids of their owners, and are otherwise as they were brought. -/
theorem stocked_start {D H : Card → Prop} (hDH : Stockable D H)
    (hdecks : ∀ card ∈ s.decks.blue ++ s.decks.orange, ∀ id, D { card with id := id })
    (h : s.start = .ok m) : m.Stocked D H := by
  have howned : ∀ card ∈ s.tableOf.undrawn, D card := by
    intro card hcard
    obtain hcard | hcard := List.mem_append.1 (s.perm_undrawn.subset hcard)
    · obtain ⟨brought, hmem, rfl⟩ := List.mem_map.1 hcard
      exact hdecks brought (List.mem_append_left _ hmem) _
    · obtain ⟨brought, hmem, rfl⟩ := List.mem_map.1 hcard
      exact hdecks brought (List.mem_append_right _ hmem) _
  have htable : s.tableOf.Stocked D H := by
    intro c
    refine ⟨?_, fun card hcard => howned card (mem_undrawn_tableOf hcard), ?_⟩
    · cases c <;> exact fun _ h => nomatch h
    · cases c <;> exact fun _ h => nomatch h
  rw [start_eq h]
  have hdrawn := (htable.drawTimes hDH .blue s.limits.startingHandSize).drawTimes hDH .orange
    s.limits.startingHandSize
  exact hdrawn.beside .blue fun _ => ⟨rfl, rfl, rfl⟩

/-- The ids that the costs of the cards bear when the players bring them. -/
def Brings (s : MatchSetup) (id : AbilityId) : Prop :=
  ∃ card ∈ s.decks.blue ++ s.decks.orange, ∃ x ∈ card.costAdjustments, x.ability = id

theorem not_brings
    (hplain : ∀ card ∈ s.decks.blue ++ s.decks.orange, card.costAdjustments = [])
    (id : AbilityId) : ¬ s.Brings id := by
  rintro ⟨card, hcard, x, hx, -⟩
  rw [hplain card hcard] at hx
  cases hx

theorem accounted_start (h : s.start = .ok m) : m.Accounted s.Brings Match.Owed where
  bears q id k := by
    rintro ⟨p, hp, hbears⟩
    obtain ⟨-, rfl⟩ | ⟨-, rfl⟩ := core_of_start h hp <;> cases k <;>
      simp [Piece.Bears, core, Piece.new] at hbears
  costs := stocked_start (stockable_chargedBy fun _ => .inl)
    (fun card hcard _ x hx => ⟨card, hcard, x, hx, rfl⟩) h

end MatchSetup

/-! ### Commands -/

namespace Match

theorem Stocked.withNotices {D H : Card → Prop} {m : Match} (hm : m.Stocked D H) (n : Notices) :
    (m.withNotices n).Stocked D H := fun c => by
  cases c with
  | blue => exact ⟨(hm .blue).hand, (hm .blue).deck, (hm .blue).discard⟩
  | orange => exact ⟨(hm .orange).hand, (hm .orange).deck, (hm .orange).discard⟩

theorem lasting_accounted (F : AbilityId → Prop) :
    Lasting fun m => m.Numbered ∧ m.Accounted F Owed where
  retold m m' htold hm := by
    refine ⟨lasting_numbered.retold m m' htold hm.1, ?_⟩
    obtain ⟨n, rfl⟩ := htold
    exact hm.2.of_board rfl fun _ hm => hm.withNotices n
  acts s s' h hs := ⟨lasting_numbered.acts s s' h hs.1, h.accounted hs.1 hs.2⟩

theorem lasting_tidy : Lasting (Stocked (fun card => card.costAdjustments = []) Card.Tidy) where
  retold := by
    rintro m _ ⟨n, rfl⟩ hm
    exact hm.withNotices n
  acts _ _ h hs := h.stocked Card.stockable_tidy Card.chargeable_tidy hs

end Match

/-- All that stands on objects and on the costs of cards in hand is upheld: an ability that is
installed on some object and has been applied answers for it. No ability contributes to any of them
twice, and all cards elsewhere are as they were printed. -/
structure Match.Upheld (m : Match) : Prop where
  adjustments : ∀ p ∈ m.board.pieces, ∀ x ∈ p.adjustments, m.board.Upholds x.ability .adjustment
  statuses : ∀ p ∈ m.board.pieces, ∀ x ∈ p.statuses, m.board.Upholds x.ability .status
  activations : ∀ p ∈ m.board.pieces, ∀ x ∈ p.activations, m.board.Upholds x.ability .activation
  costs : ∀ c, ∀ card ∈ (m.seat c).hand, ∀ x ∈ card.costAdjustments,
    m.board.Upholds x.ability .adjustment
  pieces : ∀ p ∈ m.board.pieces, p.Tidy
  hands : ∀ c, ∀ card ∈ (m.seat c).hand, card.Tidy
  others : ∀ c, ∀ card ∈ (m.seat c).deck ++ (m.seat c).discard, card.costAdjustments = []

namespace MatchSetup

variable {s : MatchSetup} {m : Match}

theorem Reaches.accounted (hm : s.Reaches m) : m.Accounted s.Brings Match.Owed :=
  ((Match.lasting_accounted s.Brings).reaches
    (fun _ h => ⟨Match.numbered_start h, accounted_start h⟩) hm).2

/-- An object bears only what some installed ability upholds. -/
theorem Reaches.upholds (hm : s.Reaches m) {p : Piece} (hp : p ∈ m.board.pieces) {id : AbilityId}
    {k : Imprint} (hbears : p.Bears id k) : m.board.Upholds id k := by
  obtain ⟨e, he, rfl⟩ := List.mem_map.1 hp
  have hget := Board.get?_of_mem hm.reachable.numbered.ids he
  obtain ⟨o, a, ha, hid, hleaves, -⟩ := hm.accounted.bears e.1 id k ⟨e.2, hget, hbears⟩
  exact ⟨o, a, ha, hid, hleaves⟩

/-- However abilities come and go, nothing that one of them has written outlasts it. -/
theorem Reaches.modifiers_upheld
    (hplain : ∀ card ∈ s.decks.blue ++ s.decks.orange, card.costAdjustments = [])
    (hm : s.Reaches m) : m.Upheld := by
  have htidy := Match.lasting_tidy.reaches
    (fun _ h => stocked_start Card.stockable_tidy (fun card hcard _ => hplain card hcard) h) hm
  refine ⟨fun p hp x hx => hm.upholds hp ⟨x, hx, rfl⟩, fun p hp x hx => hm.upholds hp ⟨x, hx, rfl⟩,
    fun p hp x hx => hm.upholds hp ⟨x, hx, rfl⟩, fun c card hcard x hx => ?_, fun p hp => ?_,
    fun c => (htidy c).hand, fun c card hcard => ?_⟩
  · exact ((hm.accounted.costs c).hand card hcard x hx).resolve_left (not_brings hplain _)
  · obtain ⟨e, he, rfl⟩ := List.mem_map.1 hp
    exact hm.reachable.every Piece.kept_tidy e he
  · exact (List.mem_append.1 hcard).elim ((htidy c).deck card) ((htidy c).discard card)

/-- Blue's event makes a robot, takes it to the hand, and has both cores adjust its cost and their
own health, forbid themselves to activate, and offer themselves an action. -/
def burdening : MatchSetup :=
  solo [.making .robot ⟨some 1, 1, some 1⟩, .returnToHand (.piecesInPlay (.only .robot)),
    .giving .any (.cardsInHand .selfPlayer .any) (.adjust .cost (.add (.const 1))),
    .giving .any (.piecesInPlay .any) (.adjust .health (.add (.const 1))),
    .giving .any (.piecesInPlay .any) (.status .cannotActivate),
    .giving .any .thisPiece (.activated "" [.endTurn])]

theorem Reaches.modifiers_upheld_burdening :
    ∃ m : Match,
      (∀ card ∈ burdening.decks.blue ++ burdening.decks.orange, card.costAdjustments = []) ∧
      burdening.Reaches m ∧
      (∃ p ∈ m.board.pieces,
        p.adjustments.length = 2 ∧ p.statuses.length = 2 ∧ p.activations.length = 1) ∧
      (∃ card ∈ (m.seat .blue).hand, card.costAdjustments.length = 1) ∧ m.Upheld := by
  have hrun : (burdening.start.holds fun m =>
      (m.submitTraced Match.maxDepth .playSolo).holds fun x =>
        (x.1.board.pieces.any fun p =>
          p.adjustments.length == 2 && p.statuses.length == 2 && p.activations.length == 1) &&
        (x.1.seat .blue).hand.any fun card => card.costAdjustments.length == 1) = true := by
    decide +kernel
  obtain ⟨m, hstart, hrun⟩ := Outcome.exists_of_holds hrun
  obtain ⟨⟨m', trace⟩, hplay, hend⟩ := Outcome.exists_of_holds hrun
  simp only [Bool.and_eq_true, List.any_eq_true, beq_iff_eq] at hend
  obtain ⟨⟨p, hp, ⟨hadjusted, hstatuses⟩, hactivations⟩, hhand⟩ := hend
  have hplain : ∀ card ∈ burdening.decks.blue ++ burdening.decks.orange,
      card.costAdjustments = [] := by
    intro card hcard
    obtain rfl := List.mem_singleton.1 hcard
    rfl
  have hm : burdening.Reaches m' := .next (.start hstart) hplay
  exact ⟨m', hplain, hm, ⟨p, hp, hadjusted, hstatuses, hactivations⟩, hhand,
    hm.modifiers_upheld hplain⟩

end MatchSetup
end HexDuel
