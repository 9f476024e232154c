import HexDuel.Proofs.Relief
import HexDuel.Proofs.Sheets

/-!
Passive abilities that write entries can be put on and taken off one by one. Applying one and
withdrawing it leaves no trace, applying it twice is applying it once, and a withdrawal leaves the
entries of all other abilities as they are.
-/

set_option autoImplicit false

namespace HexDuel

/-! ### What an application writes -/

/-- What the ability writes on each object among its targets. -/
inductive Passive.Writes (a : Passive) : (Piece → Piece) → Prop where
  | adjust {scope : Scope} {modifier : Modifier} (adjustment : Adjustment) :
    a.effect = .adjust scope modifier → a.Writes (·.adjust a.id scope adjustment)
  | status {phrase : StatusPhrase} (kind : StatusKind) :
    a.effect = .status phrase → a.Writes (·.addStatus ⟨a.id, kind⟩)
  | activated {text : String} {actions : List Action} :
    a.effect = .activated text actions → a.Writes (·.addActivation ⟨a.id, text, actions⟩)

/-- The cards on which the ability has an adjustment of the cost. -/
def Passive.charged (a : Passive) : Collection → List Card
  | .cards cards =>
    match a.effect with
    | .adjust .cost _ => cards
    | _ => []
  | _ => []

theorem Passive.imprint_of_mem_charged {a : Passive} {targets : Collection} {card : Card}
    (h : card ∈ a.charged targets) : a.imprint = .adjustment := by
  unfold charged at h
  split at h
  · split at h
    · rename_i heffect
      rw [imprint, heffect]
    · cases h
  · cases h

namespace Piece

theorem adjust_eq (p : Piece) (id : AbilityId) (scope : Scope) (adjustment : Adjustment) :
    p.adjust id scope adjustment = { p with
      adjustments := Sheet.put (·.ability) id p.adjustments
        (scope.attributes.map fun stat => ⟨id, some stat, adjustment⟩) } := by
  unfold adjust Sheet.put
  split <;> rfl

theorem addStatus_eq (p : Piece) (status : Status) : p.addStatus status = { p with
    statuses := Sheet.put (·.ability) status.ability p.statuses [status] } := by
  unfold addStatus Sheet.put
  split <;> rfl

theorem addActivation_eq (p : Piece) (activation : Activation) :
    p.addActivation activation = { p with
      activations := Sheet.put (·.ability) activation.ability p.activations [activation] } := by
  unfold addActivation Sheet.put
  split <;> rfl

end Piece

theorem Card.adjustCost_eq (c : Card) (id : AbilityId) (adjustment : Adjustment) :
    c.adjustCost id adjustment = { c with
      costAdjustments :=
        Sheet.put (·.ability) id c.costAdjustments [⟨id, none, adjustment⟩] } := by
  unfold adjustCost Sheet.put
  split <;> rfl

namespace Passive.Writes
variable {a : Passive} {f g : Piece → Piece}

theorem inscription (h : a.Writes f) : Inscription f := by
  cases h with
  | adjust adjustment => exact .adjust a.id _ adjustment
  | status kind => exact .addStatus ⟨a.id, kind⟩
  | activated => exact .addActivation ⟨a.id, _, _⟩

/-- The entries bear the id of the ability, and so a withdrawal takes them back. -/
theorem relieve (h : a.Writes f) (p : Piece) : (f p).relieve a.mark = p.relieve a.mark := by
  cases h with
  | adjust adjustment heffect =>
    have hmark : (!a.mark .adjustment a.id) = false := by simp [imprint, heffect]
    simp only [Piece.adjust_eq, Piece.relieve]
    rw [Sheet.filter_put (p := (!a.mark .adjustment ·)) hmark (by simp)]
  | status kind heffect =>
    have hmark : (!a.mark .status a.id) = false := by simp [imprint, heffect]
    simp only [Piece.addStatus_eq, Piece.relieve]
    rw [Sheet.filter_put (p := (!a.mark .status ·)) hmark (by simp)]
  | activated heffect =>
    have hmark : (!a.mark .activation a.id) = false := by simp [imprint, heffect]
    simp only [Piece.addActivation_eq, Piece.relieve]
    rw [Sheet.filter_put (p := (!a.mark .activation ·)) hmark (by simp)]

/-- Where it has written, it writes nothing more, whatever it would write now. -/
theorem again (h : a.Writes f) (h' : a.Writes g) (p : Piece) : g (f p) = f p := by
  cases h with
  | adjust adjustment heffect =>
    cases h' with
    | adjust adjustment' heffect' =>
      cases heffect.symm.trans heffect'
      simp only [Piece.adjust_eq]
      rw [Sheet.put_again (by simp) (by simp)]
    | status _ heffect' | activated heffect' => cases heffect.symm.trans heffect'
  | status kind heffect =>
    cases h' with
    | status kind' =>
      simp only [Piece.addStatus_eq]
      rw [Sheet.put_again (by simp) (by simp)]
    | adjust _ heffect' | activated heffect' => cases heffect.symm.trans heffect'
  | activated heffect =>
    cases h' with
    | activated =>
      simp only [Piece.addActivation_eq]
      rw [Sheet.put_again (by simp) (by simp)]
    | adjust _ heffect' | status _ heffect' => cases heffect.symm.trans heffect'

end Passive.Writes

namespace Card
variable (c : Card) (id : AbilityId) (adjustment adjustment' : Adjustment)

theorem relieve_adjustCost {r : Relief} (hr : r .adjustment id = true) :
    (c.adjustCost id adjustment).relieve r = c.relieve r := by
  simp only [adjustCost_eq, relieve]
  rw [Sheet.filter_put (p := (!r .adjustment ·)) (by simp [hr]) (by simp)]

theorem adjustCost_again :
    (c.adjustCost id adjustment).adjustCost id adjustment' = c.adjustCost id adjustment := by
  simp only [adjustCost_eq]
  rw [Sheet.put_again (by simp) (by simp)]

end Card

/-! ### Objects and hands -/

namespace Match

/-- The objects are as before, and so are the cards in hand. -/
structure AsBefore (m m' : Match) : Prop where
  board : m'.board = m.board
  hand : ∀ c, (m'.seat c).hand = (m.seat c).hand

variable {m m' m'' : Match}

namespace AsBefore

theorem trans (h : m.AsBefore m') (h' : m'.AsBefore m'') : m.AsBefore m'' :=
  ⟨h'.board.trans h.board, fun c => (h'.hand c).trans (h.hand c)⟩

theorem relieve (h : m.AsBefore m') (r : Relief) : (m.relieve r).AsBefore (m'.relieve r) where
  board := congrArg (Board.mapPieces · (Piece.relieve r)) h.board
  hand c := by
    rw [seat_relieve, seat_relieve, Seat.relieve, Seat.relieve, h.hand c]

theorem of_inquired {s s' : Stage} (h : Relation.ReflTransGen Inquiry s s') :
    s.game.AsBefore s'.game := by
  refine ⟨board_of_inquired h, fun d => ?_⟩
  induction h with
  | refl => rfl
  | tail _ hlast ih =>
    refine .trans ?_ ih
    cases hlast with
    | consult _ hconsulted =>
      cases hconsulted with
      | answered | suspended =>
        simp only [setSelection, changeSeat, PerSide.modify]
        split <;> cases d <;> rfl
      | waiting | refused => rfl
    | _ => rfl

end AsBefore

/-- Nothing on the board or in a hand bears the id. -/
structure FreeOf (id : AbilityId) (m : Match) : Prop where
  piece : ∀ p ∈ m.board.pieces, ∀ k, ¬ p.Bears id k
  card : ∀ c, ∀ card ∈ (m.seat c).hand, ∀ x ∈ card.costAdjustments, x.ability ≠ id

/-- Where there are no entries of the ability there is nothing to withdraw. -/
theorem FreeOf.asBefore {a : Passive} (h : m.FreeOf a.id) (hgrant : a.imprint ≠ .grant) :
    m.AsBefore (m.relieve a.mark) := by
  have hmark : ∀ (k : Imprint) {id : AbilityId}, id ≠ a.id → a.mark k id = false := fun k id hid =>
    by simp [hid]
  refine ⟨?_, fun c => ?_⟩
  · have hpieces : ∀ e ∈ m.board.entries, (e.1, e.2.relieve a.mark) = e := by
      intro e he
      have hfree := h.piece e.2 (List.mem_map_of_mem he)
      rw [e.2.relieve_of_forall (fun id => Passive.mark_of_ne (Ne.symm hgrant) id)
        (fun x hx => hmark _ fun heq => hfree .activation ⟨x, hx, heq⟩)
        (fun x hx => hmark _ fun heq => hfree .status ⟨x, hx, heq⟩)
        fun x hx => hmark _ fun heq => hfree .adjustment ⟨x, hx, heq⟩]
    exact congrArg Board.mk ((List.map_congr_left hpieces).trans (List.map_id _))
  · rw [seat_relieve]
    rw [Seat.relieve_of_forall fun card hcard x hx => hmark _ (h.card c card hcard x hx)]

theorem relieve_changePiece {r : Relief} {f : Piece → Piece}
    (hf : ∀ p : Piece, (f p).relieve r = p.relieve r) (m : Match) (id : PieceId) :
    (m.changePiece id f).relieve r = m.relieve r := by
  have hboard : (m.board.modify id f).mapPieces (·.relieve r) =
      m.board.mapPieces (·.relieve r) := by
    simp only [Board.modify_eq_map, Board.mapPieces, List.map_map]
    congr 1
    refine List.map_congr_left fun e _ => ?_
    by_cases he : e.1 = id <;> simp [he, hf]
  unfold relieve
  rw [← hboard]
  rfl

theorem relieve_adjustCostOf {r : Relief} {ability : AbilityId} (hr : r .adjustment ability = true)
    (adjustment : Adjustment) (m : Match) (id : CardId) :
    (Resolving.adjustCostOf ability adjustment id m).relieve r = m.relieve r := by
  unfold Resolving.adjustCostOf
  split
  · have hhand : ∀ cards : List Card,
        (Seat.changeFirst id (·.adjustCost ability adjustment) cards).map (·.relieve r) =
          cards.map (·.relieve r) :=
      Seat.map_changeFirst fun card => card.relieve_adjustCost ability adjustment hr
    rename_i holder _
    cases holder <;> simp [relieve, changeCard, changeSeat, PerSide.modify, Seat.relieve, hhand]
  · rfl

end Match

/-! ### One target after the other -/

section Fold
variable {β σ τ : Type} {f : β → σ → σ}

theorem List.foldl_same {g : σ → τ} {bs : List β} (h : ∀ b ∈ bs, ∀ s, g (f b s) = g s) (s : σ) :
    g (bs.foldl (fun s b => f b s) s) = g s := by
  induction bs generalizing s with
  | nil => rfl
  | cons b bs ih =>
    obtain ⟨hfirst, hrest⟩ := List.forall_mem_cons.1 h
    exact (ih hrest (f b s)).trans (hfirst s)

/-- Each step settles what it is about, and what is settled stays so. -/
theorem List.foldl_settled {S : β → σ → Prop} (hset : ∀ b s, S b (f b s))
    (hkeep : ∀ b b' s, S b s → S b (f b' s)) (bs : List β) (s : σ) :
    ∀ b ∈ bs, S b (bs.foldl (fun s b => f b s) s) := by
  have hlater : ∀ (b : β) (bs : List β) (s : σ), S b s →
      S b (bs.foldl (fun s b => f b s) s) := by
    intro b bs
    induction bs with
    | nil => exact fun _ h => h
    | cons b' bs ih => exact fun s h => ih (f b' s) (hkeep b b' s h)
  induction bs generalizing s with
  | nil => exact fun _ hb => nomatch hb
  | cons b bs ih => exact List.forall_mem_cons.2 ⟨hlater b bs _ (hset b s), ih (f b s)⟩

theorem List.foldl_of_settled {bs : List β} {s : σ} (h : ∀ b ∈ bs, f b s = s) :
    bs.foldl (fun s b => f b s) s = s := by
  induction bs with
  | nil => rfl
  | cons b bs ih =>
    obtain ⟨hfirst, hrest⟩ := List.forall_mem_cons.1 h
    rw [List.foldl_cons, hfirst, ih hrest]

end Fold

namespace Match

/-- Whatever else the ability would write on the object, it has entries there already. -/
def Marked (a : Passive) (id : PieceId) (m : Match) : Prop :=
  ∀ e ∈ m.board.entries, e.1 = id → ∀ g, a.Writes g → g e.2 = e.2

theorem of_mem_changePiece {f : Piece → Piece} {id : PieceId} {m : Match} {e : PieceId × Piece}
    (h : e ∈ (m.changePiece id f).board.entries) :
    ∃ p, (e.1, p) ∈ m.board.entries ∧ (e.1 = id ∧ e.2 = f p ∨ e.1 ≠ id ∧ e.2 = p) := by
  have hentries : (m.changePiece id f).board = ⟨m.board.entries.map fun e =>
    (e.1, if e.1 == id then f e.2 else e.2)⟩ := Board.modify_eq_map m.board id f
  rw [hentries] at h
  obtain ⟨⟨i, p⟩, hmem, rfl⟩ := List.mem_map.1 h
  refine ⟨p, hmem, ?_⟩
  by_cases hi : i = id <;> simp [hi]

theorem Marked.changePiece_eq {a : Passive} {id : PieceId} {m : Match} (h : m.Marked a id)
    {g : Piece → Piece} (hg : a.Writes g) : m.changePiece id g = m := by
  have hboard : m.board.modify id g = m.board := by
    rw [Board.modify_eq_map]
    refine congrArg Board.mk ((List.map_congr_left fun e he => ?_).trans (List.map_id _))
    by_cases hid : e.1 = id
    · rw [if_pos (beq_iff_eq.2 hid), h e he hid g hg]
      rfl
    · rw [if_neg (by simpa using hid)]
      rfl
  exact congrArg (fun b => { m with board := b }) hboard

theorem marked_foldl {a : Passive} {f : Piece → Piece} (hf : a.Writes f) (ids : List PieceId)
    (m : Match) : ∀ id ∈ ids, Marked a id (ids.foldl (fun m id => m.changePiece id f) m) := by
  refine List.foldl_settled (f := fun id m => m.changePiece id f) (S := Marked a) ?_ ?_ ids m
  · intro id m e he hid g hg
    obtain ⟨p, -, ⟨-, hwritten⟩ | ⟨hne, -⟩⟩ := of_mem_changePiece he
    · rw [hwritten, hf.again hg]
    · exact absurd hid hne
  · intro id id' m hm e he hid g hg
    obtain ⟨p, hp, ⟨-, hwritten⟩ | ⟨-, hsame⟩⟩ := of_mem_changePiece he
    · rw [hwritten, hf.again hg]
    · rw [hsame, hm _ hp hid g hg]

/-! ### One card after the other -/

theorem find?_changeFirst {f : Card → Card} (hf : ∀ c, (f c).id = c.id) (id k : CardId)
    (cards : List Card) : (Seat.changeFirst id f cards).find? (·.id == k) =
      if k = id then (cards.find? (·.id == k)).map f else cards.find? (·.id == k) := by
  induction cards with
  | nil => simp [Seat.changeFirst]
  | cons c cs ih =>
    unfold Seat.changeFirst
    by_cases hc : c.id = id
    · by_cases hk : k = id
      · simp [hc, hk, hf]
      · have hne : (c.id == k) = false := by simpa [hc] using Ne.symm hk
        rw [if_pos (by simpa using hc), if_neg hk, List.find?_cons, List.find?_cons, hf, hne]
    · rw [if_neg (by simpa using hc), List.find?_cons, List.find?_cons, ih]
      cases hck : c.id == k with
      | true =>
        have hk : k ≠ id := fun heq => hc ((eq_of_beq hck).trans heq)
        simp [hk]
      | false => rfl

/-- Of several cards of one id only the one that is found is charged. -/
theorem cardInHand?_adjustCostOf (ability : AbilityId) (adjustment : Adjustment) (id k : CardId)
    (m : Match) (d : Color) :
    ((Resolving.adjustCostOf ability adjustment id m).seat d).cardInHand? k =
      if m.holderOf? id = some d ∧ k = id then
        ((m.seat d).cardInHand? k).map (·.adjustCost ability adjustment)
      else (m.seat d).cardInHand? k := by
  have hfound := find?_changeFirst (fun c => c.id_adjustCost ability adjustment) id k
  unfold Resolving.adjustCostOf
  cases hholder : m.holderOf? id with
  | none => simp
  | some holder =>
    by_cases hd : holder = d
    · subst hd
      simp only [changeCard, seat_changeSeat_self, Seat.cardInHand?, hfound, true_and]
    · have hopponent : d = holder.opponent := by
        cases holder <;> cases d <;> simp_all [Color.opponent]
      have hnot : ¬ (some holder = some d ∧ k = id) := fun h => hd (Option.some.inj h.1)
      rw [if_neg hnot, hopponent]
      simp only [changeCard, seat_changeSeat_opponent]

theorem holderOf?_adjustCostOf (ability : AbilityId) (adjustment : Adjustment) (id k : CardId)
    (m : Match) : (Resolving.adjustCostOf ability adjustment id m).holderOf? k = m.holderOf? k := by
  unfold holderOf?
  congr 1
  funext d
  rw [cardInHand?_adjustCostOf]
  split <;> simp

theorem changeSeat_eq_self {m : Match} {c : Color} {f : Seat → Seat}
    (h : f (m.seat c) = m.seat c) : m.changeSeat c f = m := by
  have hseats : m.seats.modify c f = m.seats := by
    cases c
    · exact congrArg (fun s => { m.seats with blue := s }) h
    · exact congrArg (fun s => { m.seats with orange := s }) h
  exact congrArg (fun seats => { m with seats := seats }) hseats

/-- The ability charges the card already, if anybody holds it. -/
def Billed (ability : AbilityId) (card : Card) (m : Match) : Prop :=
  ∀ d c, m.holderOf? card.id = some d → (m.seat d).cardInHand? card.id = some c →
    ∀ adjustment, c.adjustCost ability adjustment = c

theorem Billed.adjustCostOf_eq {ability : AbilityId} {card : Card} {m : Match}
    (h : m.Billed ability card) (adjustment : Adjustment) :
    Resolving.adjustCostOf ability adjustment card.id m = m := by
  unfold Resolving.adjustCostOf
  split
  · rename_i holder hholder
    have hhand : Seat.changeFirst card.id (·.adjustCost ability adjustment) (m.seat holder).hand =
        (m.seat holder).hand :=
      Seat.changeFirst_eq_self fun c hc => h holder c hholder hc adjustment
    exact changeSeat_eq_self (congrArg (fun hand => { m.seat holder with hand := hand }) hhand)
  · rfl

theorem Billed.congr {ability : AbilityId} {card : Card} {m m' : Match}
    (h : m.Billed ability card) (hm : m.AsBefore m') : m'.Billed ability card := by
  unfold Billed holderOf? Seat.cardInHand? at h ⊢
  simpa only [hm.hand] using h

theorem billed_adjustCosts (ability : AbilityId) (adjustment : Adjustment) (cards : List Card)
    (m : Match) :
    ∀ card ∈ cards, Billed ability card (Resolving.adjustCosts m ability adjustment cards) := by
  refine List.foldl_settled
    (f := fun card : Card => Resolving.adjustCostOf ability adjustment card.id)
    (S := Billed ability) ?_ ?_ cards m
  · intro card m d c hholder hc adjustment'
    rw [holderOf?_adjustCostOf] at hholder
    rw [cardInHand?_adjustCostOf, if_pos ⟨hholder, rfl⟩] at hc
    obtain ⟨c, -, rfl⟩ := Option.map_eq_some_iff.1 hc
    exact c.adjustCost_again ability adjustment adjustment'
  · intro card card' m hm d c hholder hc adjustment'
    rw [holderOf?_adjustCostOf] at hholder
    rw [cardInHand?_adjustCostOf] at hc
    split at hc
    · obtain ⟨c, -, rfl⟩ := Option.map_eq_some_iff.1 hc
      exact c.adjustCost_again ability adjustment adjustment'
    · exact hm d c hholder hc adjustment'

end Match

/-! ### Applications -/

namespace Resolving
variable {s s' : Stage}

/-- The ability has written on the objects among its targets, and charged the cards. -/
def Inscribes (a : Passive) (targets : Collection) (m m' : Match) : Prop :=
  ∃ f adjustment, a.Writes f ∧ m' = adjustCosts
    ((targets.objectsOn m.board).foldl (fun m id => m.changePiece id f) m)
    a.id adjustment (a.charged targets)

/-- Numbers are found, and then the entries are made. -/
theorem inscribed_of_run {a : Passive} {targets : Collection} {ctx : Context} {x : Unit × Context}
    (hgrant : a.imprint ≠ .grant)
    (h : ((applyPassive a targets).run ctx).run s = .ok (x, s')) :
    ∃ found, Relation.ReflTransGen Inquiry s found ∧ Inscribes a targets found.game s'.game := by
  obtain ⟨id, source, phrase, effect, duration, disabled, applied⟩ := a
  cases effect with
  | adjust scope modifier =>
    obtain ⟨adjustment, ctx₁, found, hfind, hrest⟩ := run_bind h
    refine ⟨found, goes_resolveModifier (fun _ _ h => h) modifier _ _ _ _ hfind,
      _, adjustment, .adjust adjustment rfl, ?_⟩
    cases targets with
    | pieces ids => exact inscribed_of_onEachPiece hrest
    | cards cards =>
      dsimp only at hrest
      split at hrest
      · rename_i hscope
        cases hrest
        subst hscope
        rfl
      · rename_i hscope
        cases hrest
        cases scope <;> first | rfl | exact absurd rfl hscope
    | players | hexes => cases hrest
  | status phrase =>
    obtain ⟨kind, ctx₁, found, hfind, hrest⟩ := run_bind h
    refine ⟨found, goes_statusKind phrase _ _ _ _ hfind, _, .add 0, .status kind rfl, ?_⟩
    cases targets <;> exact inscribed_of_onEachPiece hrest
  | grant sentence => exact absurd rfl hgrant
  | activated text actions =>
    refine ⟨s, .refl, _, .add 0, .activated rfl, ?_⟩
    cases targets <;> exact inscribed_of_onEachPiece h

namespace Inscribes
variable {a : Passive} {targets : Collection} {m m' m'' : Match}

/-- A withdrawal makes no difference between before and after. -/
theorem relieve (h : Inscribes a targets m m') : m'.relieve a.mark = m.relieve a.mark := by
  obtain ⟨f, adjustment, hf, rfl⟩ := h
  refine (List.foldl_same (g := Match.relieve a.mark)
    (f := fun card : Card => adjustCostOf a.id adjustment card.id) ?_ _).trans
    (List.foldl_same (g := Match.relieve a.mark) (f := fun id m => m.changePiece id f) ?_ m)
  · intro card hcard m
    have hmark : a.mark .adjustment a.id = true := by
      simp [Passive.imprint_of_mem_charged hcard]
    exact Match.relieve_adjustCostOf hmark adjustment m card.id
  · exact fun id _ m => Match.relieve_changePiece hf.relieve m id

/-- The second time nothing is entered. -/
theorem again (h : Inscribes a targets m m') {n : Match} (hn : m'.AsBefore n)
    (h' : Inscribes a targets n m'') : m'' = n := by
  obtain ⟨f, adjustment, hf, rfl⟩ := h
  obtain ⟨g, adjustment', hg, rfl⟩ := h'
  have hboard : n.board = ((targets.objectsOn m.board).foldl
      (fun m id => m.changePiece id f) m).board :=
    hn.board.trans (Match.board_foldl (f := fun card : Card => adjustCostOf a.id adjustment card.id)
      (fun card m => Match.board_adjustCostOf a.id adjustment card.id m) _ _)
  have htargets : targets.objectsOn n.board = targets.objectsOn m.board := by
    rw [hboard]
    refine List.foldl_same (g := fun m : Match => targets.objectsOn m.board)
      (f := fun id m => m.changePiece id f) (fun id _ m => ?_) m
    exact Board.Becomes.objectsOn_eq (.modify (fun _ => ⟨rfl, rfl⟩)
      (Piece.upkept_samePlace.inscribe hf.inscription) m.board id) targets
  have hmarked : ∀ id ∈ targets.objectsOn n.board, n.changePiece id g = n := by
    intro id hid
    refine Match.Marked.changePiece_eq (a := a) (fun e he => ?_) hg
    rw [hboard] at he
    rw [htargets] at hid
    exact Match.marked_foldl hf _ m id hid e he
  have hbilled : ∀ card ∈ a.charged targets, adjustCostOf a.id adjustment' card.id n = n := by
    intro card hcard
    refine Match.Billed.adjustCostOf_eq ?_ adjustment'
    exact (Match.billed_adjustCosts a.id adjustment _ _ card hcard).congr hn
  have hpieces : (targets.objectsOn n.board).foldl (fun m id => m.changePiece id g) n = n :=
    List.foldl_of_settled (f := fun id (m : Match) => m.changePiece id g) hmarked
  rw [hpieces]
  exact List.foldl_of_settled (f := fun card : Card => adjustCostOf a.id adjustment' card.id)
    hbilled

end Inscribes
end Resolving

/-! ### Removal -/

/-- The ability can be put on and taken off whatever others there are. To apply and to withdraw it
restores objects and hands in which nothing bore its id, and to apply it again changes neither. A
withdrawal takes exactly its entries from the lists that it writes on, and so numbers are what the
adjustments of the others make of them. -/
structure Passive.Removable (a : Passive) : Prop where
  undone : ∀ {targets : Collection} {ctx : Context} {x : Unit × Context} {s s' : Stage},
    ((Resolving.applyPassive a targets).run ctx).run s = .ok (x, s') → s.game.FreeOf a.id →
      s.game.AsBefore (s'.game.withdraw a)
  once : ∀ {targets : Collection} {ctx ctx' : Context} {x x' : Unit × Context} {s s' s'' : Stage},
    ((Resolving.applyPassive a targets).run ctx).run s = .ok (x, s') →
      ((Resolving.applyPassive a targets).run ctx').run s' = .ok (x', s'') →
      s'.game.AsBefore s''.game
  withdrawn : ∀ m : Match, m.withdraw a = m.relieve a.mark
  piece : ∀ p : Piece, p.relieve a.mark = { p with
    activations := p.activations.filter (!a.mark .activation ·.ability)
    statuses := p.statuses.filter (!a.mark .status ·.ability)
    adjustments := p.adjustments.filter (!a.mark .adjustment ·.ability) }
  value : ∀ (p : Piece) (stat : Attribute), (p.relieve a.mark).value? stat =
    match p.stats.get stat with
    | none => .ok none
    | some base => (Adjustment.applyAll ((p.adjustments.filter fun x =>
        x.stat == some stat && !a.mark .adjustment x.ability).map (·.adjustment)) base).map some
  cost : ∀ c : Card, (c.relieve a.mark).effectiveCost = Adjustment.applyAll
    ((c.costAdjustments.filter (!a.mark .adjustment ·.ability)).map (·.adjustment)) c.cost

theorem Passive.removable {a : Passive} (hgrant : a.imprint ≠ .grant) : a.Removable where
  undone h hfree := by
    obtain ⟨found, hfound, hinscribes⟩ := Resolving.inscribed_of_run hgrant h
    rw [Match.withdraw_eq, hinscribes.relieve]
    exact (hfree.asBefore hgrant).trans ((Match.AsBefore.of_inquired hfound).relieve a.mark)
  once h h' := by
    obtain ⟨found, -, hinscribes⟩ := Resolving.inscribed_of_run hgrant h
    obtain ⟨found', hfound', hinscribes'⟩ := Resolving.inscribed_of_run hgrant h'
    have hsame := Match.AsBefore.of_inquired hfound'
    rwa [hinscribes.again hsame hinscribes']
  withdrawn := Match.withdraw_eq a
  piece p := by
    have hsources : ∀ id, a.mark .grant id = false := Passive.mark_of_ne (Ne.symm hgrant)
    simp only [Piece.relieve, Passive.relieve_of_source fun id _ => hsources id,
      Trigger.relieve_of_source fun id _ => hsources id, List.map_id']
  value p stat := by
    have hrest : (p.relieve a.mark).adjustmentsOf stat = (p.adjustments.filter fun x =>
        x.stat == some stat && !a.mark .adjustment x.ability).map (·.adjustment) :=
      congrArg (List.map StatAdjustment.adjustment) List.filter_filter
    rw [← hrest]
    rfl
  cost _ := rfl

/-- Health of both cores is adjusted by an ability that nobody has heard of. -/
theorem Passive.removable_solo : ∃ (a : Passive) (s s' s'' : Stage) (x x' : Unit × Context),
    a.imprint ≠ .grant ∧ s.game.FreeOf a.id ∧
      ((Resolving.applyPassive a (.pieces [1, 2])).run .empty).run s = .ok (x, s') ∧
      ((Resolving.applyPassive a (.pieces [1, 2])).run .empty).run s' = .ok (x', s'') ∧
      s'.game.board.pieces.all (·.adjustments.length == 1) = true ∧
      s.game.AsBefore (s'.game.withdraw a) ∧ s'.game.AsBefore s''.game ∧ a.Removable := by
  let a : Passive :=
    ⟨7, none, .piecesInPlay .any, .adjust .health (.add (.const 1)), none, false, none⟩
  have hrun : ((MatchSetup.solo []).start.holds fun m =>
      (m.board.pieces.all fun p => p.passives.isEmpty && p.triggers.isEmpty &&
        p.activations.isEmpty && p.statuses.isEmpty && p.adjustments.isEmpty) &&
      (m.cardsInHands.all (·.costAdjustments.isEmpty)) &&
      (((Resolving.applyPassive a (.pieces [1, 2])).run .empty).run ⟨m, []⟩).holds fun y =>
        y.2.game.board.pieces.all (·.adjustments.length == 1) &&
        (((Resolving.applyPassive a (.pieces [1, 2])).run .empty).run y.2).holds fun _ =>
          true) = true := by decide +kernel
  obtain ⟨m, -, hrun⟩ := Outcome.exists_of_holds hrun
  obtain ⟨hempty, hrun⟩ := Bool.and_eq_true_iff.1 hrun
  obtain ⟨⟨x, s'⟩, hfirst, hrun⟩ := Outcome.exists_of_holds hrun
  obtain ⟨hwritten, hrun⟩ := Bool.and_eq_true_iff.1 hrun
  obtain ⟨⟨x', s''⟩, hsecond, -⟩ := Outcome.exists_of_holds hrun
  have hfree : m.FreeOf a.id := by
    simp only [Bool.and_eq_true, List.all_eq_true, List.isEmpty_iff] at hempty
    refine ⟨fun p hp k => ?_, fun c card hcard x hx => ?_⟩
    · obtain ⟨⟨⟨⟨hpassives, htriggers⟩, hactivations⟩, hstatuses⟩, hadjustments⟩ := hempty.1 p hp
      cases k <;> simp [Piece.Bears, hpassives, htriggers, hactivations, hstatuses, hadjustments]
    · rw [hempty.2 card (List.mem_flatMap.2 ⟨c, by cases c <;> decide, hcard⟩)] at hx
      cases hx
  have hgrant : a.imprint ≠ .grant := by decide
  have hremovable : a.Removable := Passive.removable hgrant
  exact ⟨a, ⟨m, []⟩, s', s'', x, x', hgrant, hfree, hfirst, hsecond, hwritten,
    hremovable.undone hfirst hfree, hremovable.once hfirst hsecond, hremovable⟩

end HexDuel
