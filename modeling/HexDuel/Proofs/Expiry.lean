import HexDuel.Proofs.Modifiers
import HexDuel.Proofs.Relief
import Mathlib.Logic.Function.Iterate

/-!
Durations. After so many turns those abilities are left that last longer, and what the others have
written is gone with them.
-/

set_option autoImplicit false

namespace HexDuel

/-! ### Abilities that last -/

/-- It has not run out so many turns later. -/
def lasting (k : Nat) : Option Nat → Bool
  | none => true
  | some d => decide (k < d)

theorem tickDuration_eq (duration : Option Nat) : tickDuration duration =
    (!lasting 1 duration, if lasting 1 duration then duration.map (· - 1) else duration) := by
  match duration with
  | none => rfl
  | some 0 => rfl
  | some 1 => rfl
  | some (n + 2) => simp [tickDuration, lasting]

/-- One turn after so many. -/
theorem lasting_succ (k : Nat) (duration : Option Nat) : lasting (k + 1) duration =
    (lasting k duration && lasting 1 (duration.map (· - k))) := by
  cases duration with
  | none => rfl
  | some d =>
    rw [Bool.eq_iff_iff]
    simp only [lasting, Option.map_some, Bool.and_eq_true, decide_eq_true_eq]
    omega

namespace Passive

def lasts (k : Nat) (a : Passive) : Bool := lasting k a.duration

/-- So many turns later. -/
def aged (k : Nat) (a : Passive) : Passive := { a with duration := a.duration.map (· - k) }

theorem tick_eq_ite (a : Passive) : a.tick = if a.lasts 1 then some (a.aged 1) else none := by
  unfold tick lasts aged
  rw [tickDuration_eq]
  by_cases hlasts : lasting 1 a.duration = true <;> simp [hlasts]

theorem lasts_succ (k : Nat) (a : Passive) :
    a.lasts (k + 1) = (a.lasts k && (a.aged k).lasts 1) := lasting_succ k a.duration

theorem aged_aged (k : Nat) (a : Passive) : (a.aged k).aged 1 = a.aged (k + 1) := by
  simp [aged, Option.map_map, Function.comp_def, Nat.sub_sub]

end Passive

namespace Trigger

def lasts (k : Nat) (t : Trigger) : Bool := lasting k t.duration

/-- So many turns later. -/
def aged (k : Nat) (t : Trigger) : Trigger := { t with duration := t.duration.map (· - k) }

theorem tick_eq_ite (t : Trigger) : t.tick = if t.lasts 1 then some (t.aged 1) else none := by
  unfold tick lasts aged
  rw [tickDuration_eq]
  by_cases hlasts : lasting 1 t.duration = true <;> simp [hlasts]

theorem lasts_succ (k : Nat) (t : Trigger) :
    t.lasts (k + 1) = (t.lasts k && (t.aged k).lasts 1) := lasting_succ k t.duration

theorem aged_aged (k : Nat) (t : Trigger) : (t.aged k).aged 1 = t.aged (k + 1) := by
  simp [aged, Option.map_map, Function.comp_def, Nat.sub_sub]

end Trigger

/-- The object so many turns later, if nothing but its own durations counts. -/
def Piece.aged (k : Nat) (p : Piece) : Piece :=
  { p with
    passives := (p.passives.filter (·.lasts k)).map (·.aged k)
    triggers := (p.triggers.filter (·.lasts k)).map (·.aged k) }

theorem Piece.countDown_eq (p : Piece) : p.countDown = p.aged 1 := by
  have hpassive : Passive.tick = fun a => if a.lasts 1 then some (a.aged 1) else none :=
    funext Passive.tick_eq_ite
  have htrigger : Trigger.tick = fun t => if t.lasts 1 then some (t.aged 1) else none :=
    funext Trigger.tick_eq_ite
  rw [countDown, aged, hpassive, htrigger, ← List.filterMap_filter, ← List.filterMap_filter]
  simp [List.filterMap_eq_map']

theorem Piece.aged_aged (k : Nat) (p : Piece) : (p.aged k).aged 1 = p.aged (k + 1) := by
  have hpassive : ∀ a : Passive, ((a.aged k).lasts 1 && a.lasts k) = a.lasts (k + 1) := fun a =>
    (Bool.and_comm _ _).trans (a.lasts_succ k).symm
  have htrigger : ∀ t : Trigger, ((t.aged k).lasts 1 && t.lasts k) = t.lasts (k + 1) := fun t =>
    (Bool.and_comm _ _).trans (t.lasts_succ k).symm
  simp only [aged, List.filter_map, List.map_map, List.filter_filter, Function.comp_def,
    Passive.aged_aged, Trigger.aged_aged, hpassive, htrigger]

/-- What is withdrawn may as well be withdrawn later. -/
theorem Piece.aged_relieve (r : Relief) (k : Nat) (p : Piece) :
    (p.relieve r).aged k = (p.aged k).relieve r := by
  simp only [aged, relieve, List.filter_map, List.map_map]
  rfl

/-! ### Turn after turn -/

namespace Match

def aged (k : Nat) (m : Match) : Match := m.changeBoard (·.mapPieces (·.aged k))

/-- The passive abilities that run out within so many turns. -/
def expiring (k : Nat) (m : Match) : List Passive :=
  m.board.pieces.flatMap fun p => p.passives.filter (!·.lasts k)

theorem tickDurations_eq (m : Match) :
    m.tickDurations = (m.aged 1).relieve (Passive.dues (m.expiring 1)) := by
  have hexpired : ∀ a : Passive, a.tick.isNone = !a.lasts 1 := fun a => by
    rw [a.tick_eq_ite]
    cases a.lasts 1 <;> rfl
  have hcount : Piece.countDown = Piece.aged 1 := funext Piece.countDown_eq
  unfold tickDurations expiring
  dsimp only
  rw [withdrawAll_eq, hcount]
  simp only [hexpired]
  rfl

theorem aged_relieve (r : Relief) (k : Nat) (m : Match) :
    (m.relieve r).aged k = (m.aged k).relieve r := by
  simp [aged, relieve, changeBoard, Board.mapPieces, Piece.aged_relieve, Function.comp_def]

theorem aged_aged (k : Nat) (m : Match) : (m.aged k).aged 1 = m.aged (k + 1) := by
  simp [aged, changeBoard, Board.mapPieces, Piece.aged_aged, Function.comp_def]

theorem dues_expiring_iff {k : Nat} {m : Match} {kind : Imprint} {id : AbilityId} :
    Passive.dues (m.expiring k) kind id = true ↔
      ∃ p ∈ m.board.pieces, ∃ a ∈ p.passives, a.lasts k = false ∧ a.due kind id = true := by
  simp only [Passive.dues, expiring, List.any_eq_true, List.mem_flatMap, List.mem_filter,
    Bool.not_eq_true']
  constructor
  · rintro ⟨a, ⟨p, hp, ha, hlasts⟩, hdue⟩
    exact ⟨p, hp, a, ha, hlasts, hdue⟩
  · rintro ⟨p, hp, a, ha, hlasts, hdue⟩
    exact ⟨a, ⟨p, hp, ha, hlasts⟩, hdue⟩

/-- What runs out is that which runs out before the last turn, and what then runs out in one more,
as it is by then. -/
theorem dues_expiring_succ (r : Relief) (k : Nat) (m : Match) :
    (Passive.dues (m.expiring k)).both (Passive.dues (((m.aged k).relieve r).expiring 1)) =
      Passive.dues (m.expiring (k + 1)) := by
  have hpieces : ((m.aged k).relieve r).board.pieces =
      m.board.pieces.map fun p => (p.aged k).relieve r := by
    simp [relieve, aged, changeBoard, Function.comp_def]
  funext kind id
  rw [Bool.eq_iff_iff, Relief.both, Bool.or_eq_true, dues_expiring_iff, dues_expiring_iff,
    dues_expiring_iff, hpieces]
  constructor
  · rintro (⟨p, hp, a, ha, hlasts, hdue⟩ | ⟨_, hq, _, hb, hlasts, hdue⟩)
    · exact ⟨p, hp, a, ha, by rw [a.lasts_succ, hlasts, Bool.false_and], hdue⟩
    · obtain ⟨p, hp, rfl⟩ := List.mem_map.1 hq
      obtain ⟨_, haged, rfl⟩ := List.mem_map.1 hb
      obtain ⟨a, ha, rfl⟩ := List.mem_map.1 haged
      obtain ⟨ha, -⟩ := List.mem_filter.1 ha
      have hlasts : (a.aged k).lasts 1 = false := hlasts
      exact ⟨p, hp, a, ha, by rw [a.lasts_succ, hlasts, Bool.and_false], hdue⟩
  · rintro ⟨p, hp, a, ha, hlasts, hdue⟩
    cases hbefore : a.lasts k with
    | false => exact .inl ⟨p, hp, a, ha, hbefore, hdue⟩
    | true =>
      refine .inr ⟨_, List.mem_map_of_mem hp, (a.aged k).relieve r, ?_, ?_, hdue⟩
      · exact List.mem_map_of_mem (List.mem_map_of_mem (List.mem_filter.2 ⟨ha, hbefore⟩))
      · rwa [a.lasts_succ, hbefore, Bool.true_and] at hlasts

/-- Counting down turn after turn comes to counting down once, and then withdrawing at once all that
has run out by the end. -/
theorem ticks_eq (m : Match) {k : Nat} (hk : 1 ≤ k) :
    tickDurations^[k] m = (m.aged k).relieve (Passive.dues (m.expiring k)) := by
  induction hk with
  | refl => exact m.tickDurations_eq
  | step hk ih =>
    rw [Function.iterate_succ_apply', ih, tickDurations_eq, aged_relieve, aged_aged,
      relieve_relieve, dues_expiring_succ]

/-! ### What runs out -/

/-- A passive ability of that id runs out within so many turns. -/
def expires (k : Nat) (m : Match) (id : AbilityId) : Bool := (m.expiring k).any (·.id == id)

/-- The ability that granted it has been applied, and runs out within so many turns. -/
def orphans (k : Nat) (m : Match) (source : Option AbilityId) : Bool :=
  (m.expiring k).any fun e => e.applied.isSome && source == some e.id

/-- The match so many turns later. Of the abilities those are left that last longer, in their order,
and those whose grant has run out are disabled. Of the entries on objects those are left that are of
no ability that has run out, and in the hands such entries only as cards came in with. Nothing else
has changed. -/
structure RunsOut (brings : AbilityId → Prop) (k : Nat) (m n : Match) : Prop where
  ids : n.board.ids = m.board.ids
  piece : ∀ id p, m.board.get? id = some p → n.board.get? id = some { p with
    passives := (p.passives.filter (·.lasts k)).map fun a =>
      { a.aged k with disabled := a.disabled || m.orphans k a.source }
    triggers := (p.triggers.filter (·.lasts k)).map fun t =>
      { t.aged k with disabled := t.disabled || m.orphans k t.source }
    activations := p.activations.filter (!m.expires k ·.ability)
    statuses := p.statuses.filter (!m.expires k ·.ability)
    adjustments := p.adjustments.filter (!m.expires k ·.ability) }
  seat : ∀ c, n.seat c = (m.seat c).relieve (Passive.dues (m.expiring k))
  cost : ∀ c, ∀ card ∈ (n.seat c).hand, ∀ x ∈ card.costAdjustments,
    m.expires k x.ability = true → brings x.ability
  rest : { n with board := m.board, seats := m.seats } = m

section Reached
variable {m : Match} {k : Nat} {kind : Imprint} {id : AbilityId}

theorem installed_of_mem_expiring (hm : m.Numbered) {e : Passive} (he : e ∈ m.expiring k) :
    ∃ o, m.board.Installed o e := by
  obtain ⟨p, hp, he⟩ := List.mem_flatMap.1 he
  obtain ⟨⟨o, p⟩, hmem, rfl⟩ := List.mem_map.1 hp
  exact ⟨o, p, Board.get?_of_mem hm.ids hmem, (List.mem_filter.1 he).1⟩

/-- Who answers for an entry is the ability of that id, and so it is that one which runs out. -/
theorem due_of_upheld (hm : m.Numbered) (h : m.board.Upholds id kind) {e : Passive}
    (he : e ∈ m.expiring k) (hid : e.id = id) : e.due kind id = true := by
  obtain ⟨o, a, ha, haid, hleaves⟩ := h
  obtain ⟨o', he'⟩ := installed_of_mem_expiring hm he
  obtain ⟨-, rfl⟩ := ha.unique hm.abilities he' (hid.trans haid.symm)
  simp [Passive.due, hleaves.1, hleaves.2, hid]

theorem dues_eq_expires (hm : m.Numbered) (h : m.board.Upholds id kind) :
    Passive.dues (m.expiring k) kind id = m.expires k id := by
  rw [Bool.eq_iff_iff]
  simp only [Passive.dues, expires, List.any_eq_true]
  constructor
  · rintro ⟨e, he, hdue⟩
    simp only [Passive.due, Passive.mark_apply, Bool.and_eq_true, beq_iff_eq] at hdue
    exact ⟨e, he, beq_iff_eq.2 hdue.2.2.symm⟩
  · rintro ⟨e, he, hid⟩
    exact ⟨e, he, due_of_upheld hm h he (beq_iff_eq.1 hid)⟩

/-- An enabled grant is one of an applied ability, and so it goes with that one. -/
theorem disabled_eq_orphans (hm : m.Numbered) {disabled : Bool} {source : Option AbilityId}
    (h : disabled = false → ∀ id, source = some id → m.board.Upholds id .grant) :
    (disabled || source.any (Passive.dues (m.expiring k) .grant)) =
      (disabled || m.orphans k source) := by
  cases disabled with
  | true => rfl
  | false =>
    cases source with
    | none => simp [orphans]
    | some id =>
      have hupheld := h rfl id rfl
      rw [Bool.eq_iff_iff]
      simp only [Bool.false_or, Option.any_some, Passive.dues, orphans, List.any_eq_true]
      constructor
      · rintro ⟨e, he, hdue⟩
        simp only [Passive.due, Passive.mark_apply, Bool.and_eq_true, beq_iff_eq] at hdue
        exact ⟨e, he, by simp [hdue.1, hdue.2.2]⟩
      · rintro ⟨e, he, horphans⟩
        simp only [Bool.and_eq_true, beq_iff_eq, Option.some.injEq] at horphans
        exact ⟨e, he, due_of_upheld hm hupheld he horphans.2.symm⟩

end Reached
end Match

namespace MatchSetup
variable {s : MatchSetup} {m : Match}

/-- Whatever stands on an object and whatever was granted to it, it is gone or disabled with the
ability that it is of. -/
theorem Reaches.piece_runs_out (hm : s.Reaches m) (k : Nat) {p : Piece}
    (hp : p ∈ m.board.pieces) : (p.aged k).relieve (Passive.dues (m.expiring k)) = { p with
      passives := (p.passives.filter (·.lasts k)).map fun a =>
        { a.aged k with disabled := a.disabled || m.orphans k a.source }
      triggers := (p.triggers.filter (·.lasts k)).map fun t =>
        { t.aged k with disabled := t.disabled || m.orphans k t.source }
      activations := p.activations.filter (!m.expires k ·.ability)
      statuses := p.statuses.filter (!m.expires k ·.ability)
      adjustments := p.adjustments.filter (!m.expires k ·.ability) } := by
  have hnumbered := hm.reachable.numbered
  have hkept : ∀ (kind : Imprint) {id : AbilityId}, p.Bears id kind →
      (!Passive.dues (m.expiring k) kind id) = !m.expires k id := fun _ _ hbears =>
    congrArg (!·) (Match.dues_eq_expires hnumbered (hm.upholds hp hbears))
  have hpassives : ((p.passives.filter (·.lasts k)).map (·.aged k)).map
      (·.relieve (Passive.dues (m.expiring k))) = (p.passives.filter (·.lasts k)).map fun a =>
        { a.aged k with disabled := a.disabled || m.orphans k a.source } := by
    refine List.map_map.trans (List.map_congr_left fun a ha => ?_)
    refine congrArg (fun d => { a.aged k with disabled := d })
      (Match.disabled_eq_orphans hnumbered fun henabled id hid => ?_)
    exact hm.upholds hp (.inl ⟨a, (List.mem_filter.1 ha).1, hid, henabled⟩)
  have htriggers : ((p.triggers.filter (·.lasts k)).map (·.aged k)).map
      (·.relieve (Passive.dues (m.expiring k))) = (p.triggers.filter (·.lasts k)).map fun t =>
        { t.aged k with disabled := t.disabled || m.orphans k t.source } := by
    refine List.map_map.trans (List.map_congr_left fun t ht => ?_)
    refine congrArg (fun d => { t.aged k with disabled := d })
      (Match.disabled_eq_orphans hnumbered fun henabled id hid => ?_)
    exact hm.upholds hp (.inr ⟨t, (List.mem_filter.1 ht).1, hid, henabled⟩)
  rw [Piece.relieve, Piece.aged, hpassives, htriggers,
    List.filter_congr fun x hx => hkept .activation ⟨x, hx, rfl⟩,
    List.filter_congr fun x hx => hkept .status ⟨x, hx, rfl⟩,
    List.filter_congr fun x hx => hkept .adjustment ⟨x, hx, rfl⟩]

/-- However many turns go by at once, durations count down to removal. -/
theorem Reaches.runs_out (hm : s.Reaches m) {k : Nat} (hk : 1 ≤ k) :
    m.RunsOut s.Brings k (Match.tickDurations^[k] m) := by
  rw [m.ticks_eq hk]
  refine ⟨by simp [Match.relieve, Match.aged, Match.changeBoard], fun id p hp => ?_,
    fun c => Match.seat_relieve _ _ c, fun c card hcard x hx hexpires => ?_, rfl⟩
  · have hmem : p ∈ m.board.pieces := List.mem_map_of_mem (f := (·.2)) (Board.mem_of_get? hp)
    have hboard : ((m.aged k).relieve (Passive.dues (m.expiring k))).board = m.board.mapPieces
        fun p => (p.aged k).relieve (Passive.dues (m.expiring k)) := by
      simp [Match.relieve, Match.aged, Match.changeBoard, Board.mapPieces, Function.comp_def]
    rw [hboard, Board.get?_mapPieces, hp]
    exact congrArg some (hm.piece_runs_out k hmem)
  · rw [Match.seat_relieve] at hcard
    obtain ⟨card, hheld, rfl⟩ := List.mem_map.1 hcard
    obtain ⟨hx, hkept⟩ := List.mem_filter.1 hx
    refine ((hm.accounted.costs c).hand card hheld x hx).resolve_right fun hupheld => ?_
    rw [Match.dues_eq_expires hm.reachable.numbered hupheld, hexpires] at hkept
    cases hkept

/-- Blue's event gives both cores three abilities, one for three turns and two for two turns, of
which one grants a fourth. -/
def fading : MatchSetup :=
  solo [.giveAbility (.piecesInPlay .any)
      (.setAbility ⟨.piecesInPlay .any, .adjust .health (.add (.const 1)), some 2⟩) none,
    .giveAbility (.piecesInPlay .any)
      (.setAbility ⟨.thisPiece, .status .cannotMove, none⟩) (some 3),
    .giveAbility (.piecesInPlay .any) (.setAbility ⟨.thisPiece,
      .grant (.setAbility ⟨.thisPiece, .status .cannotAttack, none⟩), some 2⟩) none]

/-- Two turns later the adjustments are gone, the other status stands and so does the granted one,
whose ability is disabled. -/
theorem Reaches.runs_out_fading : ∃ m : Match, fading.Reaches m ∧ 1 ≤ 2 ∧
    (m.board.pieces.all fun p => p.passives.map (·.disabled) == [false, false, false, false] &&
      p.adjustments.length == 2 && p.statuses.length == 2) = true ∧
    ((Match.tickDurations^[2] m).board.pieces.all fun p =>
      p.passives.map (fun a => (a.disabled, a.duration)) == [(false, some 1), (true, none)] &&
        p.adjustments.isEmpty && p.statuses.length == 2) = true ∧
    m.RunsOut fading.Brings 2 (Match.tickDurations^[2] m) := by
  have hrun : (fading.start.holds fun m =>
      (m.submitTraced Match.maxDepth .playSolo).holds fun x =>
        (x.1.board.pieces.all fun p =>
          p.passives.map (·.disabled) == [false, false, false, false] &&
            p.adjustments.length == 2 && p.statuses.length == 2) &&
        (Match.tickDurations^[2] x.1).board.pieces.all fun p =>
          p.passives.map (fun a => (a.disabled, a.duration)) == [(false, some 1), (true, none)] &&
            p.adjustments.isEmpty && p.statuses.length == 2) = true := by decide +kernel
  obtain ⟨m, hstart, hrun⟩ := Outcome.exists_of_holds hrun
  obtain ⟨⟨m', trace⟩, hplay, hend⟩ := Outcome.exists_of_holds hrun
  obtain ⟨hbefore, hafter⟩ := Bool.and_eq_true_iff.1 hend
  have hm : fading.Reaches m' := .next (.start hstart) hplay
  exact ⟨m', hm, by decide, hbefore, hafter, hm.runs_out (by decide)⟩

end MatchSetup
end HexDuel
