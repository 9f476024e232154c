import HexDuel.Proofs.Acts
import HexDuel.Proofs.Shifts

/-!
Cards that are made in the course of a match. Each bears a number of its own, which is handed out
when the card is made.
-/

set_option autoImplicit false

namespace HexDuel

/-- The id of the card that was made under that number. -/
def tokenId (n : Nat) : CardId := s!"token/{n}"

/-- The target stands for cards that are made when they are spoken of. -/
def Target.fabricates : Target → Bool
  | .copyOf _ | .generateCard .. => true
  | .all inner | .random _ inner => inner.fabricates
  | _ => false

/-- An action that puts a card on the board speaks of one that is made for it. -/
def Happening.mints : Happening → Bool
  | .executed (.spawnPiece card _ _) => card.fabricates
  | _ => true

/-- Every card that an action has put on the board was made for it. -/
def Minting (trace : List Happening) : Prop := ∀ h ∈ trace, h.mints = true

theorem Minting.of_suffix {xs ys : List Happening} (h : Minting ys) (hsuffix : xs <:+ ys) :
    Minting xs := fun n hmem => h n (hsuffix.subset hmem)

/-- Each of the cards bears a number that was handed out in between, and no two the same. -/
def Minted (first last : Nat) (cards : List Card) : Prop :=
  ∃ ns : List Nat, cards.map (·.id) = ns.map tokenId ∧ ns.Nodup ∧ ∀ n ∈ ns, first < n ∧ n ≤ last

namespace Minted
variable {first mid last : Nat} {cards cards' : List Card}

theorem nil (first last : Nat) : Minted first last [] := ⟨[], rfl, .nil, fun _ h => nomatch h⟩

/-- What was made earlier bears smaller numbers. -/
theorem append (h : Minted first mid cards) (h' : Minted mid last cards') (hfirst : first ≤ mid)
    (hlast : mid ≤ last) : Minted first last (cards ++ cards') := by
  obtain ⟨ns, hids, hnodup, hrange⟩ := h
  obtain ⟨ns', hids', hnodup', hrange'⟩ := h'
  refine ⟨ns ++ ns', by rw [List.map_append, List.map_append, hids, hids'], ?_, fun n hn => ?_⟩
  · refine List.nodup_append.2 ⟨hnodup, hnodup', fun a ha b hb heq => ?_⟩
    have := (hrange a ha).2
    have := (hrange' b hb).1
    omega
  · obtain hn | hn := List.mem_append.1 hn
    · exact ⟨(hrange n hn).1, Nat.le_trans (hrange n hn).2 hlast⟩
    · exact ⟨Nat.lt_of_le_of_lt hfirst (hrange' n hn).1, (hrange' n hn).2⟩

end Minted

/-! ### How they are made -/

variable {s s' : Stage}

theorem Act.lastId_le (h : Act s s') : s.game.lastId ≤ s'.game.lastId := h.deeds.steps.lastId_le

theorem lastId_le_of_inquired (h : Relation.ReflTransGen Inquiry s s') :
    s.game.lastId ≤ s'.game.lastId := (Act.inquired h).lastId_le

namespace Resolving

/-- The cards of the collection were made in between. -/
def Fresh (s s' : Stage) (c : Collection) : Prop :=
  ∀ cards, c = .cards cards → ∀ card ∈ cards,
    ∃ n, card.id = tokenId n ∧ s.game.lastId < n ∧ n ≤ s'.game.lastId

theorem Fresh.widen {t t' : Stage} {c : Collection} (h : Fresh s s' c)
    (hfirst : t.game.lastId ≤ s.game.lastId) (hlast : s'.game.lastId ≤ t'.game.lastId) :
    Fresh t t' c := by
  intro cards hc card hcard
  obtain ⟨n, hid, hlt, hle⟩ := h cards hc card hcard
  exact ⟨n, hid, Nat.lt_of_le_of_lt hfirst hlt, Nat.le_trans hle hlast⟩

theorem freshCardId_of_run {ctx : Context} {x : CardId × Context}
    (h : (freshCardId.run ctx).run s = .ok (x, s')) :
    x.1 = tokenId s'.game.lastId ∧ s.game.lastId < s'.game.lastId := by
  obtain ⟨n, s₁, hfresh, hrest⟩ := Play.run_bind h
  obtain ⟨rfl, rfl⟩ := Play.number_of_run hfresh
  cases hrest
  exact ⟨rfl, Nat.lt_succ_self _⟩

theorem fresh_single {ctx : Context} {x : CardId × Context} {card : Card}
    (h : (freshCardId.run ctx).run s = .ok (x, s')) (hid : card.id = x.1) :
    Fresh s s' (.cards [card]) := by
  obtain ⟨htoken, hlt⟩ := freshCardId_of_run h
  intro cards hc c hmem
  cases hc
  obtain rfl := List.mem_singleton.1 hmem
  exact ⟨s'.game.lastId, hid.trans htoken, hlt, Nat.le_refl _⟩

theorem fresh_generate {type : CardType} {stats : Stats} {name : Option String} {ctx : Context}
    {x : Collection × Context} (h : ((generate type stats name).run ctx).run s = .ok (x, s')) :
    Fresh s s' x.1 := by
  obtain ⟨id, ctx₁, s₁, hid, hrest⟩ := run_bind h
  cases hrest
  exact fresh_single hid rfl

theorem fresh_copyOf {template : Option Card} {ctx : Context} {x : Collection × Context}
    (h : ((copyOf template).run ctx).run s = .ok (x, s')) : Fresh s s' x.1 := by
  cases template with
  | none =>
    cases h
    intro cards hc card hcard
    cases hc
    cases hcard
  | some c =>
    obtain ⟨id, ctx₁, s₁, hid, hrest⟩ := run_bind h
    cases hrest
    exact fresh_single hid rfl

/-- Only what was offered is picked. -/
theorem cards_of_random {count : Nat} {c : Collection} {ctx : Context} {x : Collection × Context}
    (h : ((random count c).run ctx).run s = .ok (x, s')) {picked : List Card}
    (hx : x.1 = .cards picked) : ∃ cards, c = .cards cards ∧ ∀ card ∈ picked, card ∈ cards := by
  obtain ⟨found, ctx₁, s₁, hpick, hrest⟩ := run_bind h
  have hfound : x.1 = found := by
    obtain ⟨_, ctx₂, s₂, hnote, hrest⟩ := run_bind hrest
    have hrest := of_run_look hrest
    dsimp only at hrest
    split at hrest
    · cases hrest
      rfl
    · obtain ⟨_, ctx₃, s₄, hlog, hrest⟩ := run_bind hrest
      cases hrest
      rfl
  obtain rfl : found = .cards picked := hfound.symm.trans hx
  cases c with
  | cards cards =>
    refine ⟨cards, rfl, fun card hcard => ?_⟩
    cases hpick
    exact mem_of_mem_pick hcard
  | _ => cases hpick

theorem fresh_random {s₁ : Stage} {count : Nat} {c : Collection} {ctx : Context}
    {x : Collection × Context} (hc : Fresh s s₁ c)
    (h : ((random count c).run ctx).run s₁ = .ok (x, s')) : Fresh s s' x.1 := by
  intro picked hx card hcard
  obtain ⟨cards, rfl, hsub⟩ := cards_of_random h hx
  obtain ⟨n, hid, hlt, hle⟩ := hc cards rfl card (hsub card hcard)
  have hcourse := (finds_random count (.cards cards)).goes _ _ _ _ h
  exact ⟨n, hid, hlt, Nat.le_trans hle (lastId_le_of_inquired hcourse)⟩

theorem fresh_of_fabricates : (t : Target) → t.fabricates = true →
    ∀ {ctx s x s'}, ((resolve t).run ctx).run s = .ok (x, s') → Fresh s s' x.1
  | .generateCard .., _, _, _, _, _, h => fresh_generate h
  | .copyOf inner, _, _, _, _, _, h => by
    obtain ⟨c, ctx₁, s₁, hinner, hrest⟩ := run_bind h
    have hrest := of_run_look hrest
    obtain ⟨template, ctx₂, s₂, hlift, hcopy⟩ := run_bind hrest
    obtain ⟨-, rfl⟩ := Play.of_run_lift (of_run_lift hlift)
    have hinquired := inquired_of_resolve hinner
    exact (fresh_copyOf hcopy).widen (lastId_le_of_inquired hinquired) (Nat.le_refl _)
  | .all inner, hfab, _, _, _, _, h => fresh_of_fabricates inner hfab h
  | .random count pool, hfab, _, _, _, _, h => by
    obtain ⟨c, ctx₁, s₁, hpool, hrest⟩ := run_bind h
    exact fresh_random (fresh_of_fabricates pool hfab hpool) hrest

end Resolving
end HexDuel
