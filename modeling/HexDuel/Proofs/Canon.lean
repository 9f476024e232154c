import HexDuel.Proofs.Decrees
import HexDuel.Proofs.Modifiers

/-!
Upkeep of blind abilities. Each is withdrawn and applied anew while what the others have entered is
partly old and partly new. When the pass is over, all that stands anywhere has been decreed in the
match without what passive abilities have written, in the order of the pass: the match is as it
would be if it were written from scratch, and a second pass changes nothing.
-/

set_option autoImplicit false

namespace HexDuel

/-! ### What decrees come to -/

namespace Decree

/-- All that they enter in one place, one after the other. -/
def total (ds : List Decree) (b : Bearer) : Sheet := .join (ds.map (·.on b))

/-- What an ability has been applied to. -/
def record (ds : List Decree) (id : AbilityId) : Option Collection :=
  (ds.find? (·.ability == id)).map (·.targets)

theorem total_concat (ds : List Decree) (d : Decree) (b : Bearer) :
    total (ds ++ [d]) b = (total ds b).append (d.on b) := by
  rw [total, List.map_append, List.map_singleton, Sheet.join_concat]
  rfl

theorem total_double {ds : List Decree} (h : ∀ d ∈ ds, .double ∉ d.bearers) :
    total ds .double = .empty := by
  induction ds with
  | nil => rfl
  | cons d ds ih =>
    have hrest := ih fun d' hd' => h d' (List.mem_cons_of_mem _ hd')
    rw [total, List.map_cons, on, if_neg (h d List.mem_cons_self)]
    exact hrest

theorem record_concat_self {ds : List Decree} {d : Decree} (h : d.ability ∉ ds.map (·.ability)) :
    record (ds ++ [d]) d.ability = some d.targets := by
  have hnone : ds.find? (·.ability == d.ability) = none :=
    List.find?_eq_none.2 fun d' hd' heq => h (eq_of_beq heq ▸ List.mem_map_of_mem hd')
  simp [record, List.find?_append, hnone]

theorem record_concat {ds : List Decree} {d : Decree} {id : AbilityId} (h : d.ability ≠ id) :
    record (ds ++ [d]) id = record ds id := by
  simp [record, List.find?_append, h]

end Decree

open Decree

/-! ### Entries one after the other -/

namespace Match
variable {m x x' : Match} {ds : List Decree}

/-- Since the first match the abilities of these decrees have been brought up to date. What others
have entered is as it was, and what these have decreed follows. -/
structure Advanced (m : Match) (ds : List Decree) (x : Match) : Prop where
  unwritten : x.unwritten = m.unwritten
  own : ∀ d ∈ ds, (∀ id ∈ d.text.abilities, id = d.ability) ∧ .double ∉ d.bearers
  sheets : x.sheets = m.sheets.map fun e =>
    (e.1, (e.2.keep (· ∉ ds.map (·.ability))).append (total ds e.1))
  recorded : ∀ o a, x.board.Installed o a → a.id ∈ ds.map (·.ability) →
    a.applied.map (·.reset) = record ds a.id

theorem Advanced.nil (m : Match) : m.Advanced [] m where
  unwritten := rfl
  own _ hd := nomatch hd
  sheets := by
    refine ((List.map_congr_left fun e _ => congrArg (Prod.mk e.1) ?_).trans (List.map_id _)).symm
    have hkeep : e.2.keep (· ∉ List.map (·.ability) ([] : List Decree)) = e.2 :=
      Sheet.keep_all fun _ _ => decide_eq_true List.not_mem_nil
    rw [hkeep]
    exact Sheet.append_empty
  recorded _ _ _ ha := nomatch ha

theorem Advanced.next (hx : m.Advanced ds x) {owner : PieceId} {a : Passive} {d : Decree}
    (hnew : a.id ∉ ds.map (·.ability)) (h : Obeys owner a d x x') (hnumbered : x'.Numbered) :
    m.Advanced (ds ++ [d]) x' where
  unwritten := h.unwritten.trans hx.unwritten
  own := by
    refine List.forall_mem_append.2 ⟨hx.own, List.forall_mem_singleton.2 ⟨?_, h.double⟩⟩
    rw [h.ability]
    exact h.own
  sheets := by
    rw [h.sheets, hx.sheets, List.map_map]
    refine List.map_congr_left fun e _ => congrArg (Prod.mk e.1) ?_
    have hkept : (total ds e.1).keep (· != a.id) = total ds e.1 := by
      refine Sheet.keep_all (Sheet.forall_abilities_join (List.forall_mem_map.2 fun d' hd' => ?_))
      refine Decree.abilities_on (fun id hid => ?_) e.1
      have hmem : id ∈ ds.map (·.ability) := (hx.own d' hd').1 id hid ▸ List.mem_map_of_mem hd'
      simpa using fun heq : id = a.id => hnew (heq ▸ hmem)
    have htest : (fun id => id != a.id && decide (id ∉ ds.map (·.ability))) =
        fun id => decide (id ∉ (ds ++ [d]).map (·.ability)) := by
      funext id
      rw [Bool.eq_iff_iff]
      simp only [List.map_append, List.map_singleton, List.mem_append, List.mem_singleton,
        h.ability, Bool.and_eq_true, bne_iff_ne, decide_eq_true_eq, not_or]
      exact And.comm
    -- What stands there is old entries of abilities that are still to come, then new ones; this
    -- ability strikes out its own among the old and adds its new ones at the end.
    dsimp only [Function.comp]
    rw [Sheet.keep_append, Sheet.keep_keep, htest, hkept, Sheet.append_assoc, total_concat]
  recorded := by
    intro o b hb hmem
    by_cases hid : b.id = a.id
    · obtain ⟨b', targets, hb', hid', happlied, htargets⟩ := h.recorded
      obtain ⟨-, rfl⟩ := hb'.unique hnumbered.abilities hb (hid.trans hid'.symm)
      rw [happlied, hid, ← h.ability, record_concat_self (h.ability ▸ hnew), ← htargets]
      rfl
    · have hold : b.id ∈ ds.map (·.ability) := by
        rw [List.map_append, List.map_singleton] at hmem
        refine (List.mem_append.1 hmem).resolve_right fun heq => hid ?_
        exact (List.mem_singleton.1 heq).trans h.ability
      rw [record_concat (h.ability ▸ Ne.symm hid)]
      exact hx.recorded o b (h.others o b hb hid) hold

/-! ### The pass -/

theorem installed_unwritten {o : PieceId} {c : Passive} :
    m.unwritten.board.Installed o c ↔ ∃ a, m.board.Installed o a ∧ a.setApplied none = c := by
  unfold Board.Installed
  rw [get?_unwritten]
  constructor
  · rintro ⟨_, hq, hc⟩
    obtain ⟨p, hp, rfl⟩ := Option.map_eq_some_iff.1 hq
    obtain ⟨a, ha, rfl⟩ := List.mem_map.1 hc
    exact ⟨a, ⟨p, hp, ha⟩, rfl⟩
  · rintro ⟨a, ⟨p, hp, ha⟩, rfl⟩
    exact ⟨p.unwritten, congrArg _ hp, List.mem_map_of_mem ha⟩

theorem blind_unwritten (m : Match) : m.unwritten.blind = m.blind := by
  have hpassives : ∀ p : Piece, p.unwritten.blind = p.blind := by
    intro p
    unfold Piece.blind
    rw [Piece.unwritten, List.all_map]
    rfl
  unfold blind
  rw [pieces_unwritten, List.all_map]
  exact congrArg m.board.pieces.all (funext hpassives)

variable {F : AbilityId → Prop} {trace : List Happening} {s : Stage}

/-- How far upkeep has come when the abilities of these decrees have been visited. -/
structure Midway (F : AbilityId → Prop) (m : Match) (trace : List Happening) (ds : List Decree)
    (s : Stage) : Prop where
  trace : s.trace = trace
  advanced : m.Advanced ds s.game
  numbered : s.game.Numbered
  accounted : s.game.Accounted F Owed

theorem Midway.one (hs : Midway F m trace ds s) (hF : ∀ id, ¬ F id) {owner : PieceId}
    {a : Passive} (ha : m.unwritten.board.Installed owner a) (hblind : a.blind = true)
    (hnew : a.id ∉ ds.map (·.ability)) :
    Outcome.Agree (fun u d => d.ability = a.id ∧ Midway F m trace (ds ++ [d]) u.2)
      ((Play.reapplyOne owner a.id).run s) (m.unwritten.decree owner a) := by
  rw [← hs.advanced.unwritten] at ha ⊢
  obtain ⟨b, hb, rfl⟩ := installed_unwritten.1 ha
  refine (agree_reapplyOne hs.accounted hF hs.numbered hb hblind).mono fun u d hrun h => ?_
  have hnumbered : u.2.game.Numbered :=
    numbered_of_tended hs.numbered (Play.goes_reapplyOne _ _ _ _ _ hrun)
  exact ⟨h.2.ability, h.1.trans hs.trace, hs.advanced.next (a := b) hnew h.2 hnumbered, hnumbered,
    (hs.accounted.reapplyOne hs.numbered hrun).owed⟩

theorem Midway.each (hF : ∀ id, ¬ F id) {owner : PieceId} {as : List Passive}
    (has : ∀ a ∈ as, m.unwritten.board.Installed owner a ∧ a.blind = true)
    (hs : Midway F m trace ds s) (hnew : (ds.map (·.ability) ++ as.map (·.id)).Nodup) :
    Outcome.Agree
      (fun u es => es.map (·.ability) = as.map (·.id) ∧ Midway F m trace (ds ++ es) u.2)
      ((as.forM fun a => Play.reapplyOne owner a.id).run s)
      (as.mapM (m.unwritten.decree owner)) := by
  induction as generalizing ds s with
  | nil => exact .ok ⟨rfl, ds.append_nil.symm ▸ hs⟩
  | cons a as ih =>
    obtain ⟨ha, hblind⟩ := has a List.mem_cons_self
    have hfresh : a.id ∉ ds.map (·.ability) := fun hmem =>
      (List.nodup_append.1 hnew).2.2 _ hmem _ List.mem_cons_self rfl
    rw [List.mapM_cons]
    refine (hs.one hF ha hblind hfresh).bind fun u d _ ⟨hid, hone⟩ => ?_
    have hassoc : ds.map (·.ability) ++ (a :: as).map (·.id) =
        (ds ++ [d]).map (·.ability) ++ as.map (·.id) := by simp [hid]
    rw [bind_pure_comp]
    refine (ih (fun a' ha' => has a' (List.mem_cons_of_mem _ ha')) hone (hassoc ▸ hnew)).map_right
      fun u' es ⟨hids, hrest⟩ => ⟨?_, ?_⟩
    · rw [List.map_cons, List.map_cons, hids, hid]
    · rwa [List.append_assoc] at hrest

theorem Midway.of (hF : ∀ id, ¬ F id) (hblind : m.blind = true) {e : PieceId × Piece}
    (he : e ∈ m.unwritten.board.entries) (hs : Midway F m trace ds s)
    (hnew : (ds.map (·.ability) ++ e.2.passives.map (·.id)).Nodup) :
    Outcome.Agree
      (fun u es => es.map (·.ability) = e.2.passives.map (·.id) ∧ Midway F m trace (ds ++ es) u.2)
      ((Play.reapplyOf e.1).run s) (e.2.passives.mapM (m.unwritten.decree e.1)) := by
  rw [← blind_unwritten, ← hs.advanced.unwritten, blind_unwritten] at hblind
  rw [← hs.advanced.unwritten] at he
  obtain ⟨⟨id, p⟩, hp, rfl⟩ := List.mem_map.1 he
  have hget : s.game.board.get? id = some p := Board.get?_of_mem hs.numbered.ids hp
  have hinstalled : ∀ a ∈ p.unwritten.passives,
      m.unwritten.board.Installed id a ∧ a.blind = true := by
    intro a ha
    obtain ⟨b, hb, rfl⟩ := List.mem_map.1 ha
    rw [← hs.advanced.unwritten]
    have hpiece := List.all_eq_true.1 hblind p (List.mem_map_of_mem (f := Prod.snd) hp)
    rw [Piece.blind, Bool.and_eq_true] at hpiece
    exact ⟨installed_unwritten.2 ⟨b, ⟨p, hget, hb⟩, rfl⟩, List.all_eq_true.1 hpiece.1 b hb⟩
  have hrun : (Play.reapplyOf id).run s =
      (p.unwritten.passives.forM fun a => Play.reapplyOne id a.id).run s := by
    have hlook : (Play.piece? id).run s = .ok (s.game.board.get? id, s) := rfl
    unfold Play.reapplyOf
    rw [StateT.run_bind, hlook, hget]
    exact congrArg (StateT.run · s) (List.forM_map (l := p.passives) (g := (·.setApplied none))
      (f := fun a => Play.reapplyOne id a.id)).symm
  rw [hrun]
  exact hs.each hF hinstalled hnew

theorem Midway.pass (hF : ∀ id, ¬ F id) (hblind : m.blind = true)
    {es : List (PieceId × Piece)} (hes : ∀ e ∈ es, e ∈ m.unwritten.board.entries)
    (hs : Midway F m trace ds s)
    (hnew : (ds.map (·.ability) ++ es.flatMap fun e => e.2.passives.map (·.id)).Nodup) :
    Outcome.Agree
      (fun u dss => dss.flatten.map (·.ability) = es.flatMap (fun e => e.2.passives.map (·.id)) ∧
        Midway F m trace (ds ++ dss.flatten) u.2)
      (((es.map (·.1)).forM Play.reapplyOf).run s)
      (es.mapM fun e => e.2.passives.mapM (m.unwritten.decree e.1)) := by
  induction es generalizing ds s with
  | nil => exact .ok ⟨rfl, ds.append_nil.symm ▸ hs⟩
  | cons e es ih =>
    have hfirst : (ds.map (·.ability) ++ e.2.passives.map (·.id)).Nodup := by
      rw [List.flatMap_cons, ← List.append_assoc] at hnew
      exact (List.nodup_append.1 hnew).1
    rw [List.mapM_cons]
    refine (hs.of hF hblind (hes e List.mem_cons_self) hfirst).bind fun u ds' _ ⟨hids, hone⟩ => ?_
    have hassoc : (ds ++ ds').map (·.ability) = ds.map (·.ability) ++ e.2.passives.map (·.id) := by
      rw [List.map_append, hids]
    rw [bind_pure_comp]
    refine (ih (fun e' he' => hes e' (List.mem_cons_of_mem _ he')) hone ?_).map_right
      fun u' dss ⟨hids', hrest⟩ => ⟨?_, ?_⟩
    · rw [hassoc, List.append_assoc]
      exact hnew
    · rw [List.flatten_cons, List.map_append, hids, hids', List.flatMap_cons]
    · rwa [List.append_assoc, ← List.flatten_cons] at hrest

/-- The passive abilities on the board, object by object and in the order in which each object has
come to them. -/
def passiveIds (m : Match) : List AbilityId :=
  m.board.entries.flatMap fun e => e.2.passives.map (·.id)

theorem passiveIds_unwritten (m : Match) : m.unwritten.passiveIds = m.passiveIds := by
  have hids : ∀ p : Piece, p.unwritten.passives.map (·.id) = p.passives.map (·.id) := fun p => by
    rw [Piece.unwritten, List.map_map]
    rfl
  unfold passiveIds
  rw [unwritten, Board.mapPieces, List.flatMap_map]
  simp only [hids]

theorem Numbered.passiveIds (hm : m.Numbered) : m.passiveIds.Nodup := by
  have hall : (m.board.entries.flatMap fun e => e.2.abilityIds).Nodup := by
    have heq : m.board.abilityIds = m.board.entries.flatMap fun e => e.2.abilityIds := by
      simp [Board.abilityIds, Board.pieces, List.flatMap_map]
    exact heq ▸ hm.abilities
  obtain ⟨hown, hapart⟩ := List.nodup_flatMap.1 hall
  refine List.nodup_flatMap.2 ⟨fun e he => (List.nodup_append.1 (hown e he)).1, ?_⟩
  exact hapart.imp fun hdisjoint _ h h' =>
    hdisjoint (List.mem_append_left _ h) (List.mem_append_left _ h')

theorem mem_passiveIds {o : PieceId} {a : Passive} (ha : m.board.Installed o a) :
    a.id ∈ m.passiveIds := by
  obtain ⟨p, hp, ha⟩ := ha
  exact List.mem_flatMap.2 ⟨(o, p), Board.mem_of_get? hp, List.mem_map_of_mem ha⟩

theorem dropDisabled_of_blind (hm : m.blind = true) : m.dropDisabled = m := by
  have hnone : m.board.pieces.flatMap (fun p => p.passives.filter (·.disabled)) = [] := by
    refine List.flatMap_eq_nil_iff.2 fun p hp => List.filter_eq_nil_iff.2 fun a ha => ?_
    have hpiece := List.all_eq_true.1 hm p hp
    rw [Piece.blind, Bool.and_eq_true, List.all_eq_true] at hpiece
    have henabled := hpiece.1 a ha
    simp only [Passive.blind, Bool.and_eq_true, Bool.not_eq_true'] at henabled
    simp [henabled.1.1]
  have hsame : ∀ e ∈ m.board.entries, (e.1, e.2.dropDisabled) = e := by
    intro e he
    have hpiece := List.all_eq_true.1 hm e.2 (List.mem_map_of_mem (f := Prod.snd) he)
    simp only [Piece.blind, Passive.blind, Bool.and_eq_true, List.all_eq_true] at hpiece
    have hpassives := List.filter_eq_self.2 fun a ha => (hpiece.1 a ha).1.1
    rw [Piece.dropDisabled, hpassives, List.filter_eq_self.2 hpiece.2]
  have hboard : m.board.mapPieces (·.dropDisabled) = m.board :=
    congrArg Board.mk ((List.map_congr_left hsame).trans (List.map_id _))
  unfold dropDisabled
  rw [hnone, changeBoard, hboard]
  rfl

theorem agree_reapply (hnumbered : m.Numbered) (hm : m.Accounted F Owed) (hF : ∀ id, ¬ F id)
    (hblind : m.blind = true) (trace : List Happening) : Outcome.Agree
      (fun u ds => ds.map (·.ability) = m.passiveIds ∧ Midway F m trace ds u.2)
      (Play.reapply.run ⟨m, trace⟩) m.unwritten.decrees := by
  have hstart : Midway F m trace [] ⟨m, trace⟩ := ⟨rfl, .nil m, hnumbered, hm⟩
  have hids : m.unwritten.board.entries.map (·.1) = m.board.ids := by
    rw [unwritten, Board.mapPieces, List.map_map]
    rfl
  have hpass := hstart.pass hF hblind (fun _ he => he)
    (show m.unwritten.passiveIds.Nodup from m.passiveIds_unwritten ▸ hnumbered.passiveIds)
  rw [hids] at hpass
  have hdecrees : m.unwritten.decrees = (m.unwritten.board.entries.mapM fun e : PieceId × Piece =>
      e.2.passives.mapM (m.unwritten.decree e.1)) >>= fun dss => .ok dss.flatten := by
    unfold decrees
    cases m.unwritten.board.entries.mapM fun e : PieceId × Piece =>
      e.2.passives.mapM (m.unwritten.decree e.1) <;> rfl
  rw [hdecrees]
  refine hpass.bind (k := fun u => .ok ((), u.2.map (·.dropDisabled)))
    fun u dss _ hdone => ?_
  obtain ⟨hall, hend⟩ := hdone
  have hstill : u.2.game.blind = true := by
    rwa [← blind_unwritten, hend.advanced.unwritten, blind_unwritten]
  have hsame : u.2.map (·.dropDisabled) = u.2 :=
    congrArg (Stage.mk · u.2.trace) (dropDisabled_of_blind hstill)
  refine .ok ⟨hall.trans m.passiveIds_unwritten, ?_⟩
  rwa [hsame]

/-- All have been visited, so nothing stands anywhere but what they have decreed. -/
theorem Advanced.sheets_total (hx : m.Advanced ds x) (hids : ds.map (·.ability) = m.passiveIds)
    (hm : m.Accounted F Owed) (hF : ∀ id, ¬ F id) (hnodup : m.board.ids.Nodup) :
    ∀ e ∈ x.sheets, e.2 = total ds e.1 := by
  rw [hx.sheets]
  refine List.forall_mem_map.2 fun e he => ?_
  have hold : e.2.keep (· ∉ ds.map (·.ability)) = .empty := by
    refine Sheet.keep_none fun id hid => ?_
    obtain ⟨o, a, ha, rfl⟩ := hm.sheets hF hnodup e he id hid
    simpa [hids] using mem_passiveIds ha
  dsimp only
  rw [hold, Sheet.empty_append]

end Match

/-! ### The match as decreed -/

/-- The object with what stands on it by these decrees, and with the record of what its own
abilities are applied to. -/
def Piece.decreed (ds : List Decree) (id : PieceId) (p : Piece) : Piece :=
  { p with
    passives := p.passives.map fun a => a.setApplied (record ds a.id)
    activations := (total ds (.piece id)).activations
    statuses := (total ds (.piece id)).statuses
    adjustments := (total ds (.piece id)).adjustments }

/-- The cards with what their costs are charged by these decrees. Of several cards of one id only
the first is charged. -/
def Decree.charged (ds : List Decree) (seen : List CardId) : List Card → List Card
  | [] => []
  | c :: cs =>
    { c with costAdjustments :=
        if c.id ∈ seen then [] else (total ds (.card c.id)).adjustments } ::
      charged ds (c.id :: seen) cs

/-- The match where just that has been written which these decrees say. The hand of blue comes
before that of orange. -/
def Match.decreed (m : Match) (ds : List Decree) : Match :=
  let cards := charged ds [] m.cardsInHands
  { m with
    board := ⟨m.board.entries.map fun e => (e.1, e.2.decreed ds e.1)⟩
    seats := {
      blue := { m.seats.blue with hand := cards.take m.seats.blue.hand.length }
      orange := { m.seats.orange with hand := cards.drop m.seats.blue.hand.length } } }

/-- The object with the copies of cards among the targets of its abilities as they come back to a
hand. -/
def Piece.resetCopies (p : Piece) : Piece :=
  { p with passives := p.passives.map fun a => a.setApplied (a.applied.map (·.reset)) }

def Match.resetCopies (m : Match) : Match :=
  { m with board := m.board.mapPieces (·.resetCopies) }

theorem Decree.charged_of_sheets {ds : List Decree} (hds : ∀ d ∈ ds, .double ∉ d.bearers)
    {seen : List CardId} {cs : List Card} (h : ∀ e ∈ handSheets seen cs, e.2 = total ds e.1) :
    charged ds seen (cs.map Card.reset) = cs := by
  induction cs generalizing seen with
  | nil => rfl
  | cons c cs ih =>
    obtain ⟨hfirst, hrest⟩ := List.forall_mem_cons.1 h
    have hcost : c.costAdjustments =
        if c.id ∈ seen then [] else (total ds (.card c.id)).adjustments := by
      refine (congrArg Sheet.adjustments hfirst).trans ?_
      dsimp only
      split
      · rw [total_double hds]
        rfl
      · rfl
    have htail : charged ds (c.reset.id :: seen) (cs.map Card.reset) = cs := ih hrest
    rw [List.map_cons, charged, htail]
    exact congrArg (· :: cs) (congrArg (fun xs => { c with costAdjustments := xs }) hcost.symm)

namespace Match
variable {x : Match} {ds : List Decree}

theorem resetCopies_eq_decreed (hds : ∀ d ∈ ds, .double ∉ d.bearers)
    (hsheets : ∀ e ∈ x.sheets, e.2 = total ds e.1) (hids : x.board.ids.Nodup)
    (hrecorded : ∀ o a, x.board.Installed o a → a.applied.map (·.reset) = record ds a.id) :
    x.resetCopies = x.unwritten.decreed ds := by
  obtain ⟨hpieces, hhands⟩ := List.forall_mem_append.1 hsheets
  have hpiece : ∀ e ∈ x.board.entries,
      (e.1, e.2.resetCopies) = (e.1, e.2.unwritten.decreed ds e.1) := by
    intro e he
    have hsheet : e.2.sheet = total ds (.piece e.1) :=
      hpieces _ (List.mem_map_of_mem (f := fun e => (Bearer.piece e.1, e.2.sheet)) he)
    have hpassives : e.2.passives.map (fun a => a.setApplied (a.applied.map (·.reset))) =
        e.2.unwritten.passives.map fun a => a.setApplied (record ds a.id) := by
      rw [Piece.unwritten, List.map_map]
      refine List.map_congr_left fun a ha => ?_
      rw [hrecorded e.1 a ⟨e.2, Board.get?_of_mem hids he, ha⟩]
      rfl
    rw [Piece.resetCopies, hpassives, Piece.decreed, ← hsheet]
    rfl
  have hcards : charged ds [] x.unwritten.cardsInHands =
      x.seats.blue.hand ++ x.seats.orange.hand := by
    have hreset : x.unwritten.cardsInHands = x.cardsInHands.map Card.reset := by
      rw [cardsInHands_eq, cardsInHands_eq, List.map_append]
      rfl
    rw [hreset, charged_of_sheets hds hhands, cardsInHands_eq]
  have hboard : x.board.mapPieces (·.resetCopies) =
      ⟨x.unwritten.board.entries.map fun e => (e.1, e.2.decreed ds e.1)⟩ := by
    rw [unwritten, Board.mapPieces, Board.mapPieces, List.map_map]
    exact congrArg Board.mk (List.map_congr_left hpiece)
  have hblue : x.unwritten.seats.blue.hand.length = x.seats.blue.hand.length := List.length_map _
  unfold decreed
  dsimp only
  rw [hcards, hblue, List.take_left, List.drop_left, ← hboard]
  rfl

variable {m : Match} {F : AbilityId → Prop} {trace : List Happening} {s : Stage}

theorem Midway.resetCopies (hs : Midway F m trace ds s)
    (hids : ds.map (·.ability) = m.passiveIds) (hm : m.Accounted F Owed) (hF : ∀ id, ¬ F id)
    (hnodup : m.board.ids.Nodup) : s.game.resetCopies = m.unwritten.decreed ds := by
  have hall : s.game.passiveIds = ds.map (·.ability) := by
    rw [← passiveIds_unwritten, hs.advanced.unwritten, passiveIds_unwritten, hids]
  rw [← hs.advanced.unwritten]
  exact resetCopies_eq_decreed (fun d hd => (hs.advanced.own d hd).2)
    (hs.advanced.sheets_total hids hm hF hnodup) hs.numbered.ids
    fun o a ha => hs.advanced.recorded o a ha (hall ▸ mem_passiveIds ha)

end Match

namespace MatchSetup
variable {s : MatchSetup} {m : Match}

/-- Upkeep of blind abilities leaves just what they decree, whatever they had written before, and
finds nothing to do after that. Copies of cards among the targets of abilities are taken with what
their costs are charged then, which is all that may differ. -/
theorem Reaches.upkeep_canonical
    (hplain : ∀ card ∈ s.decks.blue ++ s.decks.orange, card.costAdjustments = [])
    (hm : s.Reaches m) (hblind : m.blind = true) {trace : List Happening} {after : Stage}
    (h : Play.reapply.run ⟨m, trace⟩ = .ok ((), after)) :
    ∃ ds, m.unwritten.decrees = .ok ds ∧ ds.map (·.ability) = m.passiveIds ∧
      after.trace = trace ∧ after.game.resetCopies = m.unwritten.decreed ds ∧
      after.game.decrees.map (·.map (·.reset)) = .ok ds ∧
      ∃ again, Play.reapply.run after = .ok ((), again) ∧ again.trace = trace ∧
        again.game.resetCopies = after.game.resetCopies := by
  have hF := not_brings hplain
  have hnumbered := hm.reachable.numbered
  have hagree := Match.agree_reapply hnumbered hm.accounted hF hblind trace
  rw [h] at hagree
  obtain ⟨ds, hds, hids, hend⟩ := hagree.ok_left
  have hsame := hend.advanced.unwritten
  have hfirst := hend.resetCopies hids hm.accounted hF hnumbered.ids
  have hstill : after.game.blind = true := by
    rwa [← Match.blind_unwritten, hsame, Match.blind_unwritten]
  have hagain := Match.agree_reapply hend.numbered hend.accounted hF hstill trace
  rw [hsame, hds] at hagain
  obtain ⟨⟨_, again⟩, hrun, hids', hend'⟩ := hagain.ok_right
  have hsecond := hend'.resetCopies hids' hend.accounted hF hend.numbered.ids
  have hstage : (⟨after.game, trace⟩ : Stage) = after := by
    rw [← hend.trace]
  refine ⟨ds, hds, hids, hend.trace, hfirst, ?_, again, hstage ▸ hrun, hend'.trace, ?_⟩
  · rw [← Match.decrees_unwritten hstill, hsame, hds]
  · rw [hsecond, hsame, hfirst]

theorem Reaches.upkeep_canonical_burdening :
    ∃ m after ds again,
      (∀ card ∈ burdening.decks.blue ++ burdening.decks.orange, card.costAdjustments = []) ∧
      burdening.Reaches m ∧ m.blind = true ∧ Play.reapply.run ⟨m, []⟩ = .ok ((), after) ∧
      m.unwritten.decrees = .ok ds ∧ ds.length = 8 ∧
      (∃ p ∈ after.game.board.pieces, p.adjustments.length = 2 ∧ p.statuses.length = 2) ∧
      (∃ card ∈ (after.game.seat .blue).hand, card.costAdjustments.length = 1) ∧
      after.game.resetCopies = m.unwritten.decreed ds ∧
      Play.reapply.run after = .ok ((), again) ∧
      again.game.resetCopies = after.game.resetCopies := by
  have hrun : (burdening.start.holds fun m =>
      (m.submitTraced Match.maxDepth .playSolo).holds fun x => x.1.blind &&
        (Play.reapply.run ⟨x.1, []⟩).holds fun y => x.1.passiveIds.length == 8 &&
          (y.2.game.board.pieces.any fun p =>
            p.adjustments.length == 2 && p.statuses.length == 2) &&
          (y.2.game.seat .blue).hand.any fun card => card.costAdjustments.length == 1) = true := by
    decide +kernel
  obtain ⟨m, hstart, hrun⟩ := Outcome.exists_of_holds hrun
  obtain ⟨⟨m', trace⟩, hplay, hrun⟩ := Outcome.exists_of_holds hrun
  obtain ⟨hblind, hrun⟩ := Bool.and_eq_true_iff.1 hrun
  obtain ⟨⟨_, after⟩, hreapply, hend⟩ := Outcome.exists_of_holds hrun
  simp only [Bool.and_eq_true, List.any_eq_true, beq_iff_eq] at hend
  obtain ⟨⟨hcount, hpiece⟩, hhand⟩ := hend
  have hplain : ∀ card ∈ burdening.decks.blue ++ burdening.decks.orange,
      card.costAdjustments = [] := by
    intro card hcard
    obtain rfl := List.mem_singleton.1 hcard
    rfl
  have hm : burdening.Reaches m' := .next (.start hstart) hplay
  obtain ⟨ds, hds, hids, -, hcanon, -, again, hagain, -, hsame⟩ :=
    hm.upkeep_canonical hplain hblind hreapply
  have hlength : ds.length = 8 := by
    rw [← List.length_map (f := (·.ability)), hids, hcount]
  exact ⟨m', after, ds, again, hplain, hm, hblind, hreapply, hds, hlength, hpiece, hhand, hcanon,
    hagain, hsame⟩

/-- Blue's event charges all cards in the hands. One of blue's cards comes with a charge of its own,
and two others are of one id. -/
def charging : MatchSetup :=
  let card : Card := {
    id := "copy", name := "Copy", type := .event, baseCost := 1, cost := 1, stats := none,
    text := "", sentences := [], origin := .builtin, costAdjustments := [] }
  let event := solo [.giving (.only .core) (.cardsInHand .selfPlayer .any)
    (.adjust .cost (.add (.const 1)))]
  { event with
    decks := {
      blue := event.decks.blue ++ [
        { card with id := "marked", costAdjustments := [⟨99, none, .add 2⟩] }, card, card]
      orange := [] }
    limits := { Limits.standard with startingHandSize := 4 } }

/-- A card keeps the charge that it has come with, and the second of two cards of one id is not
charged at all, though an ability has all of them among its targets. -/
theorem charged_apart : ∃ m after ds,
    charging.Reaches m ∧ m.blind = true ∧ Play.reapply.run ⟨m, []⟩ = .ok ((), after) ∧
    after.game.decrees = .ok ds ∧
    (∃ d ∈ ds, d.bearers = (after.game.seat .blue).hand.map (.card ·.id)) ∧
    (∃ card ∈ (after.game.seat .blue).hand, card.costAdjustments ≠ [] ∧
      card.costAdjustments ≠ (total ds (.card card.id)).adjustments) ∧
    ∃ card ∈ (after.game.seat .blue).hand, card.costAdjustments = [] ∧
      card.costAdjustments ≠ (total ds (.card card.id)).adjustments := by
  have hrun : (charging.start.holds fun m =>
      (m.submitTraced Match.maxDepth .playSolo).holds fun x => x.1.blind &&
        (Play.reapply.run ⟨x.1, []⟩).holds fun y => y.2.game.decrees.holds fun ds =>
          (ds.any fun d => d.bearers == (y.2.game.seat .blue).hand.map (.card ·.id)) &&
          ((y.2.game.seat .blue).hand.any fun card => decide (card.costAdjustments ≠ []) &&
            decide (card.costAdjustments ≠ (total ds (.card card.id)).adjustments)) &&
          (y.2.game.seat .blue).hand.any fun card => decide (card.costAdjustments = []) &&
            decide (card.costAdjustments ≠ (total ds (.card card.id)).adjustments)) = true := by
    decide +kernel
  obtain ⟨m, hstart, hrun⟩ := Outcome.exists_of_holds hrun
  obtain ⟨⟨m', trace⟩, hplay, hrun⟩ := Outcome.exists_of_holds hrun
  obtain ⟨hblind, hrun⟩ := Bool.and_eq_true_iff.1 hrun
  obtain ⟨⟨_, after⟩, hreapply, hrun⟩ := Outcome.exists_of_holds hrun
  obtain ⟨ds, hds, hend⟩ := Outcome.exists_of_holds hrun
  simp only [Bool.and_eq_true, List.any_eq_true, decide_eq_true_eq, beq_iff_eq] at hend
  obtain ⟨⟨hall, hcharged⟩, hspared⟩ := hend
  exact ⟨m', after, ds, .next (.start hstart) hplay, hblind, hreapply, hds, hall, hcharged, hspared⟩

end MatchSetup
end HexDuel
