import HexDuel.Proofs.Accounts
import HexDuel.Proofs.Sight
import HexDuel.Proofs.Transit

/-!
What passive abilities have put down in a match, place by place, and what a blind one puts down: its
entries are entered wherever its targets stand, unless it has entered some there already.
-/

set_option autoImplicit false

namespace HexDuel

/-! ### Sheets -/

/-- The entries of passive abilities in one place: on an object, or on the cost of a card. -/
structure Sheet where
  adjustments : List StatAdjustment
  statuses : List Status
  activations : List Activation

namespace Sheet

def empty : Sheet := ⟨[], [], []⟩

/-- An adjustment of the cost. -/
def charge (id : AbilityId) (adjustment : Adjustment) : Sheet := ⟨[⟨id, none, adjustment⟩], [], []⟩

def append (x y : Sheet) : Sheet :=
  ⟨x.adjustments ++ y.adjustments, x.statuses ++ y.statuses, x.activations ++ y.activations⟩

/-- All entries, sheet by sheet. -/
def join (xs : List Sheet) : Sheet :=
  ⟨xs.flatMap (·.adjustments), xs.flatMap (·.statuses), xs.flatMap (·.activations)⟩

/-- The entries of the abilities that pass. -/
def keep (test : AbilityId → Bool) (x : Sheet) : Sheet :=
  ⟨x.adjustments.filter (test ·.ability), x.statuses.filter (test ·.ability),
    x.activations.filter (test ·.ability)⟩

/-- Whose entries they are. -/
def abilities (x : Sheet) : List AbilityId :=
  x.adjustments.map (·.ability) ++ x.statuses.map (·.ability) ++ x.activations.map (·.ability)

/-- New entries of an ability come last, and only if it has none of the kind there. -/
def put {α : Type} (ability : α → AbilityId) (id : AbilityId) (entries news : List α) : List α :=
  if entries.any (ability · == id) then entries else entries ++ news

def enter (x : Sheet) (id : AbilityId) (text : Sheet) : Sheet :=
  ⟨put (·.ability) id x.adjustments text.adjustments, put (·.ability) id x.statuses text.statuses,
    put (·.ability) id x.activations text.activations⟩

section Put
variable {α : Type} {ability : α → AbilityId} {id : AbilityId} {entries news : List α}

theorem put_nil : put ability id entries [] = entries := by
  unfold put
  rw [List.append_nil, ite_self]

theorem put_fresh (h : ∀ e ∈ entries, ability e ≠ id) :
    put ability id entries news = entries ++ news := by
  have hnone : entries.any (ability · == id) = false :=
    List.any_eq_false.2 fun e he heq => h e he (eq_of_beq heq)
  rw [put, hnone]
  rfl

/-- Once an ability has entries there, it enters none again. -/
theorem put_again {news' : List α} (h : ∀ e ∈ news, ability e = id)
    (hnil : news = [] → news' = []) :
    put ability id (put ability id entries news) news' = put ability id entries news := by
  cases hany : entries.any (ability · == id) with
  | true => rw [put, put, hany, if_pos rfl, hany, if_pos rfl]
  | false =>
    have hput : put ability id entries news = entries ++ news := by
      rw [put, hany]
      rfl
    rw [hput]
    cases news with
    | nil => rw [hnil rfl, put_nil]
    | cons e news =>
      have hnew : (entries ++ e :: news).any (ability · == id) = true := by
        simp [h e List.mem_cons_self]
      rw [put, if_pos hnew]

theorem put_put (h : ∀ e ∈ news, ability e = id) :
    put ability id (put ability id entries news) news = put ability id entries news :=
  put_again h fun hnil => hnil

/-- What an ability enters is no other's. -/
theorem filter_put {p : AbilityId → Bool} (hp : p id = false)
    (h : ∀ e ∈ news, ability e = id) :
    (put ability id entries news).filter (p <| ability ·) =
      entries.filter (p <| ability ·) := by
  unfold put
  split
  · rfl
  · have hnone : news.filter (p <| ability ·) = [] :=
      List.filter_eq_nil_iff.2 fun e he => by simp [h e he, hp]
    rw [List.filter_append, hnone, List.append_nil]

end Put

variable {x y text : Sheet} {id : AbilityId}

theorem forall_abilities {P : AbilityId → Prop} : (∀ id ∈ x.abilities, P id) ↔
    (∀ e ∈ x.adjustments, P e.ability) ∧ (∀ e ∈ x.statuses, P e.ability) ∧
      ∀ e ∈ x.activations, P e.ability := by
  simp only [abilities, List.forall_mem_append, List.forall_mem_map, and_assoc]

theorem enter_enter (h : ∀ i ∈ text.abilities, i = id) :
    (x.enter id text).enter id text = x.enter id text := by
  obtain ⟨hadjustments, hstatuses, hactivations⟩ := forall_abilities.1 h
  simp only [enter, put_put hadjustments, put_put hstatuses, put_put hactivations]

theorem enter_fresh (h : id ∉ x.abilities) : x.enter id text = x.append text := by
  have hne : ∀ i ∈ x.abilities, i ≠ id := fun i hi heq => h (heq ▸ hi)
  obtain ⟨hadjustments, hstatuses, hactivations⟩ := forall_abilities.1 hne
  rw [enter, put_fresh hadjustments, put_fresh hstatuses, put_fresh hactivations, append]

theorem not_mem_keep : id ∉ (x.keep (· != id)).abilities := by
  simp [abilities, keep]

theorem append_empty : x.append empty = x := by simp [append, empty]

theorem empty_append : empty.append x = x := by simp [append, empty]

theorem append_assoc {z : Sheet} : (x.append y).append z = x.append (y.append z) := by
  simp [append]

theorem join_concat (xs : List Sheet) : join (xs ++ [x]) = (join xs).append x := by
  simp [join, append]

theorem keep_append (test : AbilityId → Bool) :
    (x.append y).keep test = (x.keep test).append (y.keep test) := by
  simp [keep, append]

theorem keep_keep (test test' : AbilityId → Bool) :
    (x.keep test').keep test = x.keep fun id => test id && test' id := by
  simp [keep, List.filter_filter]

theorem keep_all {test : AbilityId → Bool} (h : ∀ id ∈ x.abilities, test id = true) :
    x.keep test = x := by
  obtain ⟨hadjustments, hstatuses, hactivations⟩ := forall_abilities.1 h
  rw [keep, List.filter_eq_self.2 hadjustments, List.filter_eq_self.2 hstatuses,
    List.filter_eq_self.2 hactivations]

theorem keep_none {test : AbilityId → Bool} (h : ∀ id ∈ x.abilities, ¬ test id = true) :
    x.keep test = empty := by
  obtain ⟨hadjustments, hstatuses, hactivations⟩ := forall_abilities.1 h
  rw [keep, List.filter_eq_nil_iff.2 hadjustments, List.filter_eq_nil_iff.2 hstatuses,
    List.filter_eq_nil_iff.2 hactivations, empty]

theorem forall_abilities_join {xs : List Sheet} {P : AbilityId → Prop}
    (h : ∀ x ∈ xs, ∀ id ∈ x.abilities, P id) : ∀ id ∈ (join xs).abilities, P id := by
  refine forall_abilities.2 ⟨fun e he => ?_, fun e he => ?_, fun e he => ?_⟩ <;>
    obtain ⟨x, hx, he⟩ := List.mem_flatMap.1 he
  · exact (forall_abilities.1 (h x hx)).1 e he
  · exact (forall_abilities.1 (h x hx)).2.1 e he
  · exact (forall_abilities.1 (h x hx)).2.2 e he

end Sheet

/-! ### Places -/

/-- Where entries are found: on an object, or on the card that goes by an id. Of several cards of
one id in the hands that is the first one, and the others are its doubles. -/
inductive Bearer where
  | piece (id : PieceId)
  | card (id : CardId)
  | double
  deriving DecidableEq

def Piece.sheet (p : Piece) : Sheet := ⟨p.adjustments, p.statuses, p.activations⟩

def Card.sheet (c : Card) : Sheet := ⟨c.costAdjustments, [], []⟩

/-- What stands on cards, behind others of these ids. -/
def handSheets (seen : List CardId) : List Card → List (Bearer × Sheet)
  | [] => []
  | c :: cs =>
    (if c.id ∈ seen then .double else .card c.id, c.sheet) :: handSheets (c.id :: seen) cs

/-- All that passive abilities have put down. -/
def Match.sheets (m : Match) : List (Bearer × Sheet) :=
  m.board.entries.map (fun e => (.piece e.1, e.2.sheet)) ++ handSheets [] m.cardsInHands

section Hands
variable {f : Card → Card} {h : Sheet → Sheet} {id : CardId} {seen : List CardId}

theorem handSheets_map (hf : ∀ c, (f c).id = c.id ∧ (f c).sheet = h c.sheet) (cs : List Card) :
    handSheets seen (cs.map f) = (handSheets seen cs).map fun e => (e.1, h e.2) := by
  induction cs generalizing seen with
  | nil => rfl
  | cons c cs ih =>
    obtain ⟨hid, hsheet⟩ := hf c
    simp only [List.map_cons, handSheets, hid, hsheet, ih]

theorem of_mem_handSheets {cs : List Card} {e : Bearer × Sheet} (he : e ∈ handSheets seen cs) :
    ∃ c ∈ cs, e.2 = c.sheet ∧ (e.1 = .double ∨ e.1 = .card c.id ∧ c.id ∉ seen) := by
  induction cs generalizing seen with
  | nil => cases he
  | cons c cs ih =>
    obtain rfl | he := List.mem_cons.1 he
    · refine ⟨c, List.mem_cons_self, rfl, ?_⟩
      dsimp only
      split
      · exact .inl rfl
      · exact .inr ⟨rfl, ‹_›⟩
    · obtain ⟨c', hc', hsheet, hbearer⟩ := ih he
      refine ⟨c', List.mem_cons_of_mem _ hc', hsheet, hbearer.imp_right fun hcard => ?_⟩
      exact ⟨hcard.1, fun hmem => hcard.2 (List.mem_cons_of_mem _ hmem)⟩

theorem ne_of_mem_handSheets (hseen : id ∈ seen) {cs : List Card} {e : Bearer × Sheet}
    (he : e ∈ handSheets seen cs) : e.1 ≠ .card id := by
  obtain ⟨c, -, -, hdouble | ⟨hcard, hnot⟩⟩ := of_mem_handSheets he
  · exact hdouble ▸ nofun
  · exact fun heq => hnot (Bearer.card.inj (hcard.symm.trans heq) ▸ hseen)

/-- The first card of an id is the one that goes by it. -/
theorem handSheets_changeFirst (hf : ∀ c, (f c).id = c.id ∧ (f c).sheet = h c.sheet)
    (hseen : id ∉ seen) (cs : List Card) : handSheets seen (Seat.changeFirst id f cs) =
      (handSheets seen cs).map fun e => (e.1, if e.1 = .card id then h e.2 else e.2) := by
  induction cs generalizing seen with
  | nil => rfl
  | cons c cs ih =>
    obtain ⟨hid, hsheet⟩ := hf c
    unfold Seat.changeFirst
    by_cases hc : c.id = id
    · have hrest : (handSheets (c.id :: seen) cs).map
          (fun e => (e.1, if e.1 = .card id then h e.2 else e.2)) =
            handSheets (c.id :: seen) cs := by
        refine (List.map_congr_left fun e he => ?_).trans (List.map_id _)
        rw [if_neg (ne_of_mem_handSheets (List.mem_cons.2 (.inl hc.symm)) he)]
        rfl
      rw [if_pos (by simpa using hc), handSheets, handSheets, List.map_cons, hrest, hid, hsheet,
        if_neg (hc ▸ hseen), if_pos (congrArg _ hc)]
    · have hne : (if c.id ∈ seen then .double else .card c.id : Bearer) ≠ .card id := by
        split
        · intro heq
          cases heq
        · exact fun heq => hc (Bearer.card.inj heq)
      rw [if_neg (by simpa using hc), handSheets, handSheets, List.map_cons, if_neg hne,
        ih (by simp [hseen, Ne.symm hc])]

end Hands

namespace Match
variable {m m' m'' : Match}

theorem cardsInHands_eq (m : Match) :
    m.cardsInHands = m.seats.blue.hand ++ m.seats.orange.hand := by
  simp only [cardsInHands, Color.all, List.flatMap_cons, List.flatMap_nil, List.append_nil]
  rfl

theorem unwritten_board {g : PieceId × Piece → Piece} {b' : Board}
    (hg : ∀ e, (g e).unwritten = e.2.unwritten)
    (hboard : b' = ⟨m.board.entries.map fun e => (e.1, g e)⟩) :
    Match.unwritten { m with board := b' } = m.unwritten := by
  have hpieces : b'.mapPieces (·.unwritten) = m.board.mapPieces (·.unwritten) := by
    rw [hboard]
    simp only [Board.mapPieces, List.map_map, Function.comp_def, hg]
  unfold unwritten
  rw [← hpieces]

/-- Each sheet changes by itself, and nothing else does. -/
structure Changes (h : Bearer → Sheet → Sheet) (m m' : Match) : Prop where
  unwritten : m'.unwritten = m.unwritten
  installed : ∀ {o a}, m'.board.Installed o a ↔ m.board.Installed o a
  sheets : m'.sheets = m.sheets.map fun e => (e.1, h e.1 e.2)

namespace Changes
variable {h h' : Bearer → Sheet → Sheet}

theorem refl (m : Match) : Changes (fun _ x => x) m m where
  unwritten := rfl
  installed := .rfl
  sheets := (List.map_id _).symm

theorem trans (hm : Changes h m m') (hm' : Changes h' m' m'') :
    Changes (fun b x => h' b (h b x)) m m'' where
  unwritten := hm'.unwritten.trans hm.unwritten
  installed := hm'.installed.trans hm.installed
  sheets := by
    rw [hm'.sheets, hm.sheets, List.map_map]
    rfl

theorem congr (hm : Changes h m m') (heq : ∀ e ∈ m.sheets, h e.1 e.2 = h' e.1 e.2) :
    Changes h' m m' where
  unwritten := hm.unwritten
  installed := hm.installed
  sheets := by
    rw [hm.sheets]
    exact List.map_congr_left fun e he => by rw [heq e he]

/-- Objects keep their abilities, and both their sheets and those of the cards change as they are
to. -/
theorem of_places {g : PieceId × Piece → Piece}
    (hg : ∀ e, (g e).passives = e.2.passives ∧ (g e).sheet = h (.piece e.1) e.2.sheet)
    (hunwritten : m'.unwritten = m.unwritten)
    (hboard : m'.board = ⟨m.board.entries.map fun e => (e.1, g e)⟩)
    (hhands : handSheets [] m'.cardsInHands =
      (handSheets [] m.cardsInHands).map fun e => (e.1, h e.1 e.2)) : Changes h m m' where
  unwritten := hunwritten
  installed := by
    intro o a
    have hget := Board.get?_map m.board g o
    rw [← hboard] at hget
    unfold Board.Installed
    rw [hget]
    constructor
    · rintro ⟨_, hq, ha⟩
      obtain ⟨p, hp, rfl⟩ := Option.map_eq_some_iff.1 hq
      exact ⟨p, hp, (hg (o, p)).1 ▸ ha⟩
    · rintro ⟨p, hp, ha⟩
      exact ⟨g (o, p), congrArg _ hp, (hg (o, p)).1.symm ▸ ha⟩
  sheets := by
    unfold Match.sheets
    rw [hhands, hboard, List.map_append, List.map_map, List.map_map]
    congr 1
    exact List.map_congr_left fun e _ => by simp only [Function.comp, (hg e).2]

/-- Only objects change. -/
theorem of_board {g : PieceId × Piece → Piece} {b' : Board}
    (hg : ∀ e, (g e).passives = e.2.passives ∧ (g e).sheet = h (.piece e.1) e.2.sheet)
    (hunwritten : ∀ e, (g e).unwritten = e.2.unwritten)
    (hboard : b' = ⟨m.board.entries.map fun e => (e.1, g e)⟩)
    (hhands : ∀ e ∈ handSheets [] m.cardsInHands, h e.1 e.2 = e.2) :
    Changes h m { m with board := b' } := by
  refine of_places hg (unwritten_board hunwritten hboard) hboard ?_
  refine ((List.map_congr_left fun e he => ?_).trans (List.map_id _)).symm
  rw [hhands e he]
  rfl

end Changes

/-! ### Entries that are made -/

theorem changes_changePiece {f : Piece → Piece} {h : Sheet → Sheet}
    (hpassives : ∀ p, (f p).passives = p.passives) (hunwritten : ∀ p, (f p).unwritten = p.unwritten)
    (hsheet : ∀ p, (f p).sheet = h p.sheet) (m : Match) (id : PieceId) :
    Changes (fun b x => if b = .piece id then h x else x) m (m.changePiece id f) := by
  refine .of_board (fun e => ?_) (fun e => ?_) (Board.modify_eq_map _ _ _) fun e he => if_neg ?_
  · by_cases he : e.1 = id
    · simp [he, hpassives, hsheet]
    · simp [he]
  · by_cases he : e.1 = id
    · simp [he, hunwritten]
    · simp [he]
  · obtain ⟨c, -, -, hdouble | ⟨hcard, -⟩⟩ := of_mem_handSheets he
    · exact hdouble ▸ nofun
    · exact hcard ▸ nofun

end Match

section First
variable {f : Card → Card} {id : CardId}

/-- Only the first card of the id changes, if there is any. -/
theorem Seat.changeFirst_eq_self {xs : List Card}
    (h : ∀ c, xs.find? (·.id == id) = some c → f c = c) : changeFirst id f xs = xs := by
  induction xs with
  | nil => rfl
  | cons c cs ih =>
    rw [List.find?_cons] at h
    unfold changeFirst
    cases hc : c.id == id with
    | true =>
      rw [hc] at h
      rw [if_pos rfl, h c rfl]
    | false =>
      rw [hc] at h
      rw [if_neg Bool.false_ne_true, ih h]

theorem Seat.changeFirst_of_none {xs : List Card} (h : ∀ c ∈ xs, c.id ≠ id) :
    changeFirst id f xs = xs :=
  changeFirst_eq_self fun c hc =>
    absurd (by simpa using List.find?_some hc) (h c (List.mem_of_find?_eq_some hc))

theorem Seat.changeFirst_append (xs ys : List Card) : changeFirst id f (xs ++ ys) =
    if (xs.find? (·.id == id)).isSome then changeFirst id f xs ++ ys
    else xs ++ changeFirst id f ys := by
  induction xs with
  | nil => rfl
  | cons c cs ih =>
    rw [List.cons_append, changeFirst, changeFirst, List.find?_cons]
    cases c.id == id with
    | true => rfl
    | false =>
      simp only [Bool.false_eq_true, if_false, ih]
      split <;> rfl

end First

namespace Card

theorem reset_adjustCost (c : Card) (ability : AbilityId) (adjustment : Adjustment) :
    (c.adjustCost ability adjustment).reset = c.reset := by
  unfold adjustCost
  split <;> rfl

theorem sheet_adjustCost (c : Card) (ability : AbilityId) (adjustment : Adjustment) :
    (c.adjustCost ability adjustment).sheet =
      c.sheet.enter ability (.charge ability adjustment) := by
  cases h : c.costAdjustments.any (·.ability == ability) <;>
    simp [adjustCost, sheet, Sheet.enter, Sheet.put, Sheet.charge, h]

end Card

namespace Match

theorem unwritten_changeCard {f : Card → Card} (hf : ∀ c, (f c).reset = c.reset) (m : Match)
    (c : Color) (id : CardId) : (m.changeCard c id f).unwritten = m.unwritten := by
  have hseat : ∀ s : Seat, Seat.unwritten { s with hand := Seat.changeFirst id f s.hand } =
      s.unwritten := fun s => by rw [Seat.unwritten, Seat.map_changeFirst hf, Seat.unwritten]
  unfold unwritten
  cases c <;> simp only [changeCard, changeSeat, PerSide.modify, hseat]

/-- The card that goes by an id is the first one of that id in the hands. -/
theorem cardsInHands_adjustCostOf (ability : AbilityId) (adjustment : Adjustment) (id : CardId)
    (m : Match) : (Resolving.adjustCostOf ability adjustment id m).cardsInHands =
      Seat.changeFirst id (·.adjustCost ability adjustment) m.cardsInHands := by
  have hnone : ∀ {xs : List Card}, ¬ (xs.find? (·.id == id)).isSome = true →
      ∀ c ∈ xs, c.id ≠ id := by
    intro xs hxs c hc heq
    have hfound := List.find?_eq_none.1 (Option.not_isSome_iff_eq_none.1 hxs) c hc
    exact hfound (by simpa using heq)
  rw [m.cardsInHands_eq, Seat.changeFirst_append]
  unfold Resolving.adjustCostOf holderOf? Seat.cardInHand?
  simp only [Color.all, List.find?_cons, List.find?_nil]
  cases hblue : (List.find? (·.id == id) m.seats.blue.hand).isSome with
  | true =>
    have hheld : ((m.seat .blue).hand.find? (·.id == id)).isSome = true := hblue
    simp only [hheld, if_true]
    exact cardsInHands_eq _
  | false =>
    have hnot : ((m.seat .blue).hand.find? (·.id == id)).isSome = false := hblue
    simp only [hnot, Bool.false_eq_true, if_false]
    cases horange : ((m.seat .orange).hand.find? (·.id == id)).isSome with
    | true => exact cardsInHands_eq _
    | false =>
      have hkept : Seat.changeFirst id (·.adjustCost ability adjustment) m.seats.orange.hand =
          m.seats.orange.hand := Seat.changeFirst_of_none (hnone (Bool.not_eq_true _ ▸ horange))
      rw [hkept]
      exact cardsInHands_eq m

theorem changes_adjustCostOf (ability : AbilityId) (adjustment : Adjustment) (m : Match)
    (id : CardId) : Changes
      (fun b x => if b = .card id then x.enter ability (.charge ability adjustment) else x)
      m (Resolving.adjustCostOf ability adjustment id m) := by
  refine .of_places (g := fun e => e.2) (fun e => ⟨rfl, rfl⟩) ?_ ?_ ?_
  · unfold Resolving.adjustCostOf
    split
    · exact m.unwritten_changeCard (fun c => c.reset_adjustCost ability adjustment) _ _
    · rfl
  · rw [board_adjustCostOf]
    exact congrArg Board.mk (List.map_id _).symm
  · rw [cardsInHands_adjustCostOf]
    exact handSheets_changeFirst (h := (Sheet.enter · ability (.charge ability adjustment)))
      (fun c => ⟨c.id_adjustCost ability adjustment, c.sheet_adjustCost ability adjustment⟩)
      List.not_mem_nil m.cardsInHands

/-- What is entered in one place after the other, more than once only where that makes no
difference. -/
theorem Changes.foldl {β : Type} {k : β → Bearer} {step : β → Match → Match} {h : Sheet → Sheet}
    (hidem : ∀ x, h (h x) = h x)
    (hstep : ∀ (m : Match) b, Changes (fun b' x => if b' = k b then h x else x) m (step b m))
    (bs : List β) (m : Match) :
    Changes (fun b x => if b ∈ bs.map k then h x else x) m
      (bs.foldl (fun m b => step b m) m) := by
  induction bs generalizing m with
  | nil => exact (Changes.refl m).congr fun _ _ => rfl
  | cons b bs ih =>
    refine ((hstep m b).trans (ih _)).congr fun e _ => ?_
    by_cases hb : e.1 = k b
    · by_cases hbs : k b ∈ bs.map k <;> simp only [hb, hbs, if_true, if_false, hidem,
        List.map_cons, List.mem_cons, true_or]
    · simp only [hb, if_false, List.map_cons, List.mem_cons, false_or]

end Match

/-! ### What is written on an object -/

namespace Piece
variable (p : Piece) (id : AbilityId) (scope : Scope) (adjustment : Adjustment) (status : Status)
  (activation : Activation)

theorem adjust_same : (p.adjust id scope adjustment).passives = p.passives ∧
    (p.adjust id scope adjustment).unwritten = p.unwritten := by
  unfold adjust
  split <;> exact ⟨rfl, rfl⟩

theorem sheet_adjust : (p.adjust id scope adjustment).sheet =
    p.sheet.enter id ⟨scope.attributes.map fun stat => ⟨id, some stat, adjustment⟩, [], []⟩ := by
  cases h : p.adjustments.any (·.ability == id) <;> simp [adjust, sheet, Sheet.enter, Sheet.put, h]

theorem addStatus_same : (p.addStatus status).passives = p.passives ∧
    (p.addStatus status).unwritten = p.unwritten := by
  unfold addStatus
  split <;> exact ⟨rfl, rfl⟩

theorem sheet_addStatus :
    (p.addStatus status).sheet = p.sheet.enter status.ability ⟨[], [status], []⟩ := by
  cases h : p.statuses.any (·.ability == status.ability) <;>
    simp [addStatus, sheet, Sheet.enter, Sheet.put, h]

theorem addActivation_same : (p.addActivation activation).passives = p.passives ∧
    (p.addActivation activation).unwritten = p.unwritten := by
  unfold addActivation
  split <;> exact ⟨rfl, rfl⟩

theorem sheet_addActivation : (p.addActivation activation).sheet =
    p.sheet.enter activation.ability ⟨[], [], [activation]⟩ := by
  cases h : p.activations.any (·.ability == activation.ability) <;>
    simp [addActivation, sheet, Sheet.enter, Sheet.put, h]

end Piece

/-! ### Withdrawals -/

/-- What a withdrawal strikes out on a sheet. -/
def Passive.strike (a : Passive) (x : Sheet) : Sheet :=
  if a.applied.isSome then
    match a.effect with
    | .adjust .. => { x with adjustments := x.adjustments.filter (·.ability != a.id) }
    | .status _ => { x with statuses := x.statuses.filter (·.ability != a.id) }
    | .grant _ => x
    | .activated .. => { x with activations := x.activations.filter (·.ability != a.id) }
  else x

/-- Once none of its entries are left, it has struck out exactly these. -/
theorem Passive.strike_eq_keep {a : Passive} {x : Sheet} (h : a.id ∉ (a.strike x).abilities) :
    a.strike x = x.keep (· != a.id) := by
  have hkeep : (a.strike x).keep (· != a.id) = x.keep (· != a.id) := by
    unfold strike
    split
    · split <;> simp [Sheet.keep, List.filter_filter]
    · rfl
  refine .trans (Sheet.keep_all fun id hid => ?_).symm hkeep
  simpa using fun heq : id = a.id => h (heq ▸ hid)

namespace Match

theorem changes_withdrawApplied {a : Passive} (ha : a.effect.blind = true) (m : Match) :
    Changes (fun _ x => a.strike x) m (m.withdrawApplied a) := by
  obtain ⟨id, source, targets, effect, duration, disabled, applied⟩ := a
  unfold withdrawApplied Passive.strike
  dsimp only
  split
  · cases effect with
    | adjust scope modifier =>
      refine .of_places (g := fun e => e.2.dropAdjustments id) (fun _ => ⟨rfl, rfl⟩) ?_ rfl ?_
      · have hseat : ∀ s : Seat, Seat.unwritten { s with hand := s.hand.map (·.dropCostOf id) } =
            s.unwritten := fun s => by
          rw [Seat.unwritten, List.map_map]
          rfl
        unfold unwritten
        simp only [withdraw, Color.all, List.foldl_cons, List.foldl_nil, changeSeat, changeBoard,
          PerSide.modify, hseat, Board.mapPieces, List.map_map]
        rfl
      · have hhands : (m.withdraw ⟨id, source, targets, .adjust scope modifier, duration, disabled,
            applied⟩).cardsInHands = m.cardsInHands.map (·.dropCostOf id) := by
          rw [cardsInHands_eq, cardsInHands_eq, List.map_append]
          rfl
        rw [hhands]
        exact handSheets_map (f := (·.dropCostOf id))
          (h := fun x => { x with adjustments := x.adjustments.filter (·.ability != id) })
          (fun _ => ⟨rfl, rfl⟩) m.cardsInHands
    | status phrase =>
      refine .of_board (g := fun e => e.2.dropStatuses id) (fun _ => ⟨rfl, rfl⟩) (fun _ => rfl) rfl
        fun e he => ?_
      obtain ⟨c, -, hsheet, -⟩ := of_mem_handSheets he
      rw [hsheet]
      rfl
    | grant sentence => cases ha
    | activated text actions =>
      refine .of_board (g := fun e => e.2.dropActivations id) (fun _ => ⟨rfl, rfl⟩) (fun _ => rfl)
        rfl fun e he => ?_
      obtain ⟨c, -, hsheet, -⟩ := of_mem_handSheets he
      rw [hsheet]
      rfl
  · exact .refl m

variable {m : Match} {F : AbilityId → Prop} {todo : PieceId → AbilityId → Prop}

/-- Whatever stands somewhere is of abilities of which that holds. -/
theorem forall_sheets {P : AbilityId → Prop} (hids : m.board.ids.Nodup)
    (hbears : ∀ q id k, m.board.Bears q id k → P id)
    (hcosts : ∀ c, ∀ card ∈ (m.seat c).hand, ∀ x ∈ card.costAdjustments, P x.ability) :
    ∀ e ∈ m.sheets, ∀ id ∈ e.2.abilities, P id := by
  intro e he
  obtain he | he := List.mem_append.1 he
  · obtain ⟨⟨q, p⟩, hmem, rfl⟩ := List.mem_map.1 he
    have hp : m.board.get? q = some p := Board.get?_of_mem hids hmem
    exact Sheet.forall_abilities.2 ⟨fun x hx => hbears q _ .adjustment ⟨p, hp, x, hx, rfl⟩,
      fun x hx => hbears q _ .status ⟨p, hp, x, hx, rfl⟩,
      fun x hx => hbears q _ .activation ⟨p, hp, x, hx, rfl⟩⟩
  · obtain ⟨card, hcard, hsheet, -⟩ := of_mem_handSheets he
    obtain ⟨c, -, hcard⟩ := List.mem_flatMap.1 hcard
    rw [hsheet]
    exact Sheet.forall_abilities.2 ⟨hcosts c card hcard, nofun, nofun⟩

/-- When no card has come with entries, all entries are of installed abilities. -/
theorem Accounted.sheets (hm : m.Accounted F todo) (hF : ∀ id, ¬ F id) (hids : m.board.ids.Nodup) :
    ∀ e ∈ m.sheets, ∀ id ∈ e.2.abilities, ∃ o a, m.board.Installed o a ∧ a.id = id := by
  refine forall_sheets hids (fun q id k hq => ?_) fun c card hcard x hx => ?_
  · obtain ⟨o, a, ha, hid, -⟩ := hm.bears q id k hq
    exact ⟨o, a, ha, hid⟩
  · obtain ⟨o, a, ha, hid, -⟩ := ((hm.costs c).hand card hcard x hx).resolve_left (hF _)
    exact ⟨o, a, ha, hid⟩

/-- A withdrawal strikes out all entries of the ability. -/
theorem Accounted.changes_withdrawn (hm : m.Accounted F todo) (hF : ∀ id, ¬ F id)
    (hnumbered : m.Numbered) {owner : PieceId} {a : Passive} (ha : m.board.Installed owner a)
    (hblind : a.effect.blind = true) :
    Changes (fun _ x => x.keep (· != a.id)) m (m.withdrawApplied a) := by
  have hstruck := changes_withdrawApplied hblind m
  have hawaits := hm.awaits hnumbered ha
  have hids : (m.withdrawApplied a).board.ids.Nodup :=
    (numbered_of_tended (s := ⟨m, []⟩) hnumbered (.single (.withdrawApplied a))).ids
  have hfresh := forall_sheets (P := (· ≠ a.id)) hids
    (fun q id k hq => (hawaits.bears q id k hq).elim And.left fun h => nomatch h.2.2)
    fun c card hcard x hx => ((hawaits.costs c).hand card hcard x hx).elim
      (fun h => absurd h (hF _)) fun h => h.elim And.left fun h => nomatch h.2.2
  refine hstruck.congr fun e he => Passive.strike_eq_keep fun hmem => ?_
  have he' : (e.1, a.strike e.2) ∈ (m.withdrawApplied a).sheets :=
    hstruck.sheets ▸ List.mem_map_of_mem (f := fun e => (e.1, a.strike e.2)) he
  exact hfresh _ he' a.id hmem rfl

end Match
end HexDuel
