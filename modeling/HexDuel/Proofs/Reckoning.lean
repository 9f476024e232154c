import HexDuel.Proofs.UpholdingEffects

/-!
What adjusting comes to. The number an adjustment leads to is told here without a width and then cut
to what an adjusted number may be; the main statement says that effective attributes, effective costs
and numbers adjusted for good are those, except that the least number cannot be divided by minus one.
-/

set_option autoImplicit false

namespace HexDuel
namespace Adjustment

/-! ### One adjustment -/

/-- The number an adjustment leads to, however long that is. -/
def exact : Adjustment → Int → Int
  | .add n, i => i + n
  | .subtract n, i => i - n
  | .multiply n, i => i * n
  | .divide n, i => if n = 0 then i else i / n
  | .set n, _ => n

/-- The nearest number that an adjusted one may be. -/
def cut (i : Int) : Int := max 0 (min Width.most32 i)

theorem cut_bounds (i : Int) : 0 ≤ cut i ∧ cut i ≤ Width.most32 := by
  simp only [cut, Width.most32]
  omega

theorem fits32_cut (i : Int) : Fits32 (cut i) := by
  have hbounds := cut_bounds i
  simp only [fits32_iff, Width.most32] at *
  omega

theorem max_zero_saturate (i : Int) : max 0 (saturate i) = cut i := by
  simp only [saturate, cut, Width.least32, Width.most32]
  omega

theorem cut_of_fits {i : Int} (h : Fits32 i) : cut i = max 0 i := by
  simp only [fits32_iff, cut, Width.most32] at *
  omega

/-- The quotient is no longer than the dividend, so that only its sign can make it too large. -/
theorem fits32_quotient {i n : Int} (hi : Fits32 i) (h : ¬ (i = Width.least32 ∧ n = -1)) :
    Fits32 (i / n) := by
  have hlength : (i / n).natAbs ≤ i.natAbs := Int.natAbs_ediv_le_natAbs i n
  have htop : i / n ≠ 2147483648 := by
    intro htop
    have hn : n ≠ 0 := by
      rintro rfl
      simp at htop
    have hparts : n * 2147483648 + i % n = i := by
      rw [← htop]
      exact Int.mul_ediv_add_emod i n
    have hrest := Int.emod_nonneg i hn
    have hshort := Int.emod_lt i hn
    simp only [fits32_iff, Width.least32] at *
    omega
  simp only [fits32_iff] at *
  omega

/-- The one adjustment whose number does not fit. -/
theorem apply_eq {a : Adjustment} (ha : a.Fits) {i : Int} (hi : Fits32 i) :
    a.apply i =
      if i = Width.least32 ∧ a = .divide (-1) then .error .overflow else .ok (cut (a.exact i)) := by
  cases a with
  | add n | subtract n | multiply n => simp [apply, raw, exact, Except.map, max_zero_saturate]
  | set n => simp [apply, raw, exact, Except.map, cut_of_fits ha]
  | divide n =>
    simp only [apply, raw, exact, divide.injEq]
    by_cases hzero : n = 0
    · simp [hzero, Except.map, cut_of_fits hi]
    · rw [if_neg hzero, if_neg hzero]
      split
      · rename_i hleast
        obtain ⟨rfl, rfl⟩ := hleast
        rfl
      · rename_i hleast
        have hfits := fits32_quotient hi hleast
        rw [Outcome.int32_eq_ok_iff.2 ⟨rfl, hfits⟩, cut_of_fits hfits]
        rfl

/-! ### One after the other -/

/-- The number that a list of adjustments leads to, cut after each of them. -/
def reckon (as : List Adjustment) (i : Int) : Int := as.foldl (fun j a => cut (a.exact j)) i

theorem reckon_bounds {as : List Adjustment} (h : as ≠ []) (i : Int) :
    0 ≤ reckon as i ∧ reckon as i ≤ Width.most32 := by
  rw [← List.dropLast_concat_getLast h, reckon, List.foldl_append]
  exact cut_bounds _

/-- The first adjustment takes the number out of its width. None after it can, because what has been
adjusted is not negative. -/
def Outgrows (as : List Adjustment) (i : Int) : Prop :=
  i = Width.least32 ∧ as.head? = some (.divide (-1))

instance (as : List Adjustment) (i : Int) : Decidable (Outgrows as i) :=
  inferInstanceAs (Decidable (_ ∧ _))

theorem not_outgrows_of_nonneg (as : List Adjustment) {i : Int} (hi : 0 ≤ i) : ¬ Outgrows as i := by
  rintro ⟨rfl, -⟩
  exact absurd hi (by decide)

/-- What adjusting comes to. -/
def reckoning (as : List Adjustment) (i : Int) : Outcome Int :=
  if Outgrows as i then .error .overflow else .ok (reckon as i)

theorem reckoning_of_nonneg (as : List Adjustment) {i : Int} (hi : 0 ≤ i) :
    reckoning as i = .ok (reckon as i) := if_neg (not_outgrows_of_nonneg as hi)

theorem reckoning_cons (a : Adjustment) (as : List Adjustment) (i : Int) :
    reckoning (a :: as) i = (reckoning [a] i).bind (reckoning as) := by
  have hrest : reckoning as (cut (a.exact i)) = .ok (reckon as (cut (a.exact i))) :=
    reckoning_of_nonneg as (cut_bounds _).1
  by_cases h : i = Width.least32 ∧ a = .divide (-1)
  · simp [reckoning, Outgrows, h, Except.bind]
  · simp only [reckoning, Outgrows, List.head?_cons, Option.some.injEq, if_neg h]
    exact hrest.symm

theorem applyAll_eq_reckoning {as : List Adjustment} (has : ∀ a ∈ as, a.Fits) {i : Int}
    (hi : Fits32 i) : applyAll as i = reckoning as i := by
  induction as generalizing i with
  | nil => simp [reckoning, Outgrows, reckon]
  | cons a as ih =>
    obtain ⟨ha, hrest⟩ := List.forall_mem_cons.1 has
    have hfirst : a.apply i = reckoning [a] i := by
      rw [apply_eq ha hi]
      simp [reckoning, Outgrows, reckon]
    rw [reckoning_cons, ← hfirst]
    show (a.apply i).bind (applyAll as) = (a.apply i).bind (reckoning as)
    have hfits := meets_apply ha hi
    cases hnext : a.apply i with
    | error f => rfl
    | ok j =>
      rw [hnext] at hfits
      exact ih hrest hfits

end Adjustment

open Adjustment (reckon reckoning cut_bounds)

/-! ### Numbers that are kept -/

/-- One of the attributes that are adjusted leaves its width. -/
def Stats.Outgrow (as : List Adjustment) (touched : List Attribute) (s : Stats) : Prop :=
  ∃ stat ∈ touched, ∃ base ∈ s.get stat, Adjustment.Outgrows as base

/-- What adjusting those attributes for good comes to. The others stay as they are. -/
structure Stats.Reckoned (as : List Adjustment) (touched : List Attribute) (s : Stats)
    (outcome : Outcome Stats) : Prop where
  refused : s.Outgrow as touched → outcome = .error .overflow
  carried : ¬ s.Outgrow as touched → ∃ s', outcome = .ok s' ∧ ∀ stat,
    s'.get stat = if stat ∈ touched then (s.get stat).map (reckon as) else s.get stat

/-- What adjusting the cost or the attributes on a card for good comes to. -/
structure Card.Reckoned (as : List Adjustment) (scope : Scope) (c : Card)
    (outcome : Outcome Card) : Prop where
  cost : scope = .cost → outcome = (reckoning as c.cost).map fun cost => { c with cost := cost }
  bare : scope ≠ .cost → c.stats = none → outcome = .ok c
  stats : scope ≠ .cost → ∀ s, c.stats = some s → ∃ printed,
    s.Reckoned as scope.attributes printed ∧
      outcome = printed.map fun s' => { c with stats := some s' }

namespace Stats
variable {as : List Adjustment} {a : Adjustment} {stat : Attribute} {rest : List Attribute}
  {s : Stats} {base : Int} {outcome : Outcome Stats}

theorem Reckoned.skip (hbase : s.get stat = none) (h : s.Reckoned as rest outcome) :
    s.Reckoned as (stat :: rest) outcome := by
  have hrest : s.Outgrow as (stat :: rest) ↔ s.Outgrow as rest := by simp [Outgrow, hbase]
  refine ⟨fun hout => h.refused (hrest.1 hout), fun hout => ?_⟩
  obtain ⟨s', hs', hget⟩ := h.carried (mt hrest.2 hout)
  refine ⟨s', hs', fun other => ?_⟩
  rw [hget other]
  by_cases hother : other = stat
  · subst hother
    simp [hbase]
  · simp [hother]

/-- An attribute that has been adjusted is not touched again. -/
theorem Reckoned.of_set (hbase : s.get stat = some base) (hfresh : stat ∉ rest)
    (hfits : ¬ Adjustment.Outgrows [a] base)
    (h : (s.set stat (Adjustment.cut (a.exact base))).Reckoned [a] rest outcome) :
    s.Reckoned [a] (stat :: rest) outcome := by
  have hothers : ∀ other ∈ rest,
      (s.set stat (Adjustment.cut (a.exact base))).get other = s.get other := by
    intro other hmem
    refine s.get_set_of_ne ?_ _
    rintro rfl
    exact hfresh hmem
  have hrest : (s.set stat (Adjustment.cut (a.exact base))).Outgrow [a] rest ↔
      s.Outgrow [a] (stat :: rest) := by
    simp only [Outgrow, List.mem_cons, exists_eq_or_imp, hbase, Option.mem_def,
      Option.some.injEq, exists_eq_left', hfits, false_or]
    exact exists_congr fun other => and_congr_right fun hmem => by rw [hothers other hmem]
  refine ⟨fun hout => h.refused (hrest.2 hout), fun hout => ?_⟩
  obtain ⟨s', hs', hget⟩ := h.carried (mt hrest.1 hout)
  refine ⟨s', hs', fun other => ?_⟩
  rw [hget other]
  by_cases hother : other = stat
  · subst hother
    simp [hfresh, get_set_self, hbase, reckon]
  · simp [hother, s.get_set_of_ne (Ne.symm hother)]

end Stats

namespace Resolving

theorem reckoned_adjustStats {a : Adjustment} (ha : a.Fits) {touched : List Attribute}
    (hnodup : touched.Nodup) {s : Stats} (hs : s.Fits) :
    s.Reckoned [a] touched (adjustStats a touched s) := by
  induction touched generalizing s with
  | nil => exact ⟨fun ⟨_, hstat, _⟩ => (nomatch hstat), fun _ => ⟨s, rfl, fun _ => rfl⟩⟩
  | cons stat rest ih =>
    obtain ⟨hfresh, hnodup⟩ := List.nodup_cons.1 hnodup
    unfold adjustStats
    cases hbase : s.get stat with
    | none => exact (ih hnodup hs).skip hbase
    | some base =>
      have happly := Adjustment.apply_eq ha (hs.get hbase)
      by_cases hout : Adjustment.Outgrows [a] base
      · refine ⟨fun _ => ?_, fun h => absurd ⟨stat, List.mem_cons_self, base, hbase, hout⟩ h⟩
        rw [if_pos (by simpa [Adjustment.Outgrows] using hout)] at happly
        simp [happly, bind, Except.bind]
      · rw [if_neg (by simpa [Adjustment.Outgrows] using hout)] at happly
        have hset := hs.set stat (Adjustment.fits32_cut (a.exact base))
        simp only [happly, bind, Except.bind]
        exact (ih hnodup hset).of_set hbase hfresh hout

/-- What has been adjusted once is not negative, so that only the first adjustment can be refused. -/
theorem reckoned_adjustStats_all {as : List Adjustment} (has : ∀ a ∈ as, a.Fits)
    {touched : List Attribute} (hnodup : touched.Nodup) {s : Stats} (hs : s.Fits) :
    s.Reckoned as touched (as.foldlM (fun s a => adjustStats a touched s) s) := by
  induction as generalizing s with
  | nil =>
    refine ⟨fun ⟨_, _, _, _, hout⟩ => (nomatch hout.2), fun _ => ⟨s, rfl, fun stat => ?_⟩⟩
    split
    · exact Option.map_id'.symm
    · rfl
  | cons a as ih =>
    obtain ⟨ha, hrest⟩ := List.forall_mem_cons.1 has
    obtain ⟨hrefused, hcarried⟩ := reckoned_adjustStats ha hnodup hs
    have hfits := meets_adjustStats ha touched hs
    rw [List.foldlM_cons]
    refine ⟨fun h => ?_, fun h => ?_⟩
    · rw [hrefused h]
      rfl
    · obtain ⟨s₁, hs₁, hget₁⟩ := hcarried h
      rw [hs₁] at hfits ⊢
      -- all that was touched is now cut, hence not negative
      have hsafe : ¬ s₁.Outgrow as touched := by
        rintro ⟨stat, hstat, base, hbase, hout⟩
        rw [Option.mem_def, hget₁ stat, if_pos hstat] at hbase
        obtain ⟨_, _, rfl⟩ := Option.map_eq_some_iff.1 hbase
        exact Adjustment.not_outgrows_of_nonneg as (cut_bounds _).1 hout
      obtain ⟨s', hs', hget⟩ := (ih hrest hfits).carried hsafe
      refine ⟨s', hs', fun stat => ?_⟩
      rw [hget stat, hget₁ stat]
      split
      · rw [Option.map_map]
        rfl
      · rfl

theorem foldlM_adjustCard_cost (as : List Adjustment) (c : Card) :
    as.foldlM (fun c a => adjustCard .cost a c) c =
      (Adjustment.applyAll as c.cost).map fun cost => { c with cost := cost } := by
  induction as generalizing c with
  | nil => rfl
  | cons a as ih =>
    rw [List.foldlM_cons, Adjustment.applyAll, List.foldlM_cons]
    cases hfirst : a.apply c.cost with
    | error f => simp [adjustCard, hfirst, bind, Except.bind, Except.map]
    | ok cost =>
      simp only [adjustCard, hfirst, if_pos, bind, Except.bind, pure, Except.pure]
      exact ih _

theorem adjustCard_of_stats {scope : Scope} (hscope : scope ≠ .cost) (a : Adjustment) {c : Card}
    {s : Stats} (hs : c.stats = some s) :
    adjustCard scope a c =
      (adjustStats a scope.attributes s).map fun s' => { c with stats := some s' } := by
  simp only [adjustCard, hscope, if_false, hs]
  cases adjustStats a scope.attributes s <;> rfl

theorem foldlM_adjustCard_stats {scope : Scope} (hscope : scope ≠ .cost) (as : List Adjustment)
    {c : Card} {s : Stats} (hs : c.stats = some s) :
    as.foldlM (fun c a => adjustCard scope a c) c =
      (as.foldlM (fun s a => adjustStats a scope.attributes s) s).map fun s' =>
        { c with stats := some s' } := by
  induction as generalizing c s with
  | nil =>
    show Except.ok c = Except.ok { c with stats := some s }
    rw [← hs]
  | cons a as ih =>
    rw [List.foldlM_cons, List.foldlM_cons, adjustCard_of_stats hscope a hs]
    cases adjustStats a scope.attributes s with
    | error f => rfl
    | ok s₁ => exact @ih { c with stats := some s₁ } s₁ rfl

theorem foldlM_adjustCard_bare {scope : Scope} (hscope : scope ≠ .cost) (as : List Adjustment)
    {c : Card} (hs : c.stats = none) :
    as.foldlM (fun c a => adjustCard scope a c) c = .ok c := by
  induction as with
  | nil => rfl
  | cons a as ih => simpa [List.foldlM_cons, adjustCard, hscope, hs, bind, Except.bind] using ih

theorem reckoned_adjustCard {as : List Adjustment} (has : ∀ a ∈ as, a.Fits) (scope : Scope)
    {c : Card} (hcost : Fits32 c.cost) (hprinted : ∀ s ∈ c.stats, s.Fits) :
    c.Reckoned as scope (as.foldlM (fun c a => adjustCard scope a c) c) where
  cost := by
    rintro rfl
    rw [foldlM_adjustCard_cost, Adjustment.applyAll_eq_reckoning has hcost]
  bare hscope hs := foldlM_adjustCard_bare hscope as hs
  stats hscope s hs :=
    ⟨_, reckoned_adjustStats_all has scope.nodup_attributes (hprinted s hs),
      foldlM_adjustCard_stats hscope as hs⟩

end Resolving

/-! ### All of them -/

/-- Effective attributes, effective costs and numbers adjusted for good are what the adjustments
lead to, cut after each of them, unless the first divides the least number by minus one. -/
theorem numbers_reckoned {p : Piece} (hstats : p.stats.Fits)
    (hheld : ∀ a ∈ p.adjustments, a.adjustment.Fits) {c : Card} (hcost : Fits32 c.cost)
    (hprinted : ∀ s ∈ c.stats, s.Fits) (hcharged : ∀ a ∈ c.costAdjustments, a.adjustment.Fits)
    {as : List Adjustment} (has : ∀ a ∈ as, a.Fits) (scope : Scope) :
    (∀ stat, p.value? stat =
      match p.stats.get stat with
      | none => .ok none
      | some base => (reckoning (p.adjustmentsOf stat) base).map some) ∧
    c.effectiveCost = reckoning (c.costAdjustments.map (·.adjustment)) c.cost ∧
    p.stats.Reckoned as scope.attributes
      (as.foldlM (fun s a => Resolving.adjustStats a scope.attributes s) p.stats) ∧
    c.Reckoned as scope (as.foldlM (fun c a => Resolving.adjustCard scope a c) c) ∧
    ∀ (bs : List Adjustment) (i : Int), bs ≠ [] → 0 ≤ reckon bs i ∧ reckon bs i ≤ Width.most32 := by
  refine ⟨fun stat => ?_, ?_, Resolving.reckoned_adjustStats_all has scope.nodup_attributes hstats,
    Resolving.reckoned_adjustCard has scope hcost hprinted,
    fun bs i hbs => Adjustment.reckon_bounds hbs i⟩
  · unfold Piece.value?
    cases hbase : p.stats.get stat with
    | none => rfl
    | some base =>
      have hof : ∀ a ∈ p.adjustmentsOf stat, a.Fits := List.forall_mem_map.2 fun a ha =>
        hheld a (List.mem_filter.1 ha).1
      show (Adjustment.applyAll _ base).map some = _
      rw [Adjustment.applyAll_eq_reckoning hof (hstats.get hbase)]
  · exact Adjustment.applyAll_eq_reckoning (List.forall_mem_map.2 hcharged) hcost

/-- Everything on it is the least number, and those adjustments are held on its cost. -/
def Card.least (held : List Adjustment) : Card :=
  { (default : Card) with
    cost := Width.least32
    stats := some ⟨some Width.least32, Width.least32, none⟩
    costAdjustments := held.map fun a => ⟨1, none, a⟩ }

/-- A robot of the least numbers, with those adjustments held on its health. -/
def Piece.least (held : List Adjustment) : Piece :=
  { Piece.new 3 (Card.least []) .blue ⟨0, 0, 0⟩ with
    adjustments := held.map fun a => ⟨1, some .health, a⟩ }

theorem numbers_reckoned_least :
    (∀ a ∈ [Adjustment.divide (-2), .multiply 3, .subtract Width.least32], a.Fits) ∧
    (Piece.least [.divide (-2), .multiply 3, .subtract Width.least32]).value? .health =
      .ok (some Width.most32) ∧
    (Piece.least []).value? .speed = .ok none ∧
    (Card.least [.divide 0, .add (-1), .set 3]).effectiveCost = .ok 3 ∧
    ∃ s, [Adjustment.multiply (-1), .divide (-1)].foldlM
      (fun s a => Resolving.adjustStats a Scope.allAttributes.attributes s)
        (Piece.least []).stats = .ok s ∧ s.get .attack = some 0 ∧ s.get .speed = none := by
  have hleast : Fits32 Width.least32 := ⟨by decide, by decide⟩
  have hstats : Stats.Fits ⟨some Width.least32, Width.least32, none⟩ :=
    ⟨fun _ hi => Option.some.inj hi ▸ hleast, hleast, fun _ hi => nomatch hi⟩
  have hprinted : ∀ s ∈ some (⟨some Width.least32, Width.least32, none⟩ : Stats), s.Fits :=
    fun _ hs => Option.some.inj hs ▸ hstats
  have hheld : ∀ a ∈ [Adjustment.divide (-2), .multiply 3, .subtract Width.least32], a.Fits := by
    simp [Adjustment.Fits, fits32_iff]
  have hcharged : ∀ a ∈ [Adjustment.divide 0, .add (-1), .set 3], a.Fits := by
    simp [Adjustment.Fits, fits32_iff]
  have hfolded : ∀ a ∈ [Adjustment.multiply (-1), .divide (-1)], a.Fits := by
    simp [Adjustment.Fits, fits32_iff]
  obtain ⟨hvalue, hcost, hkept, -, -⟩ :=
    @numbers_reckoned (Piece.least [.divide (-2), .multiply 3, .subtract Width.least32]) hstats
      (List.forall_mem_map.2 hheld) (Card.least [.divide 0, .add (-1), .set 3]) hleast hprinted
      (List.forall_mem_map.2 hcharged) [.multiply (-1), .divide (-1)] hfolded .allAttributes
  obtain ⟨s, hs, hget⟩ := hkept.carried fun ⟨_, _, _, _, hout⟩ => nomatch hout.2
  exact ⟨hheld, hvalue .health, hvalue .speed, hcost, s, hs, hget .attack, hget .speed⟩

/-- The least cost divided by minus one has 33 bits, though the next adjustment would set it. -/
theorem least_cost_overflows :
    Fits32 (Card.least [.divide (-1), .set 3]).cost ∧
    (∀ a ∈ (Card.least [.divide (-1), .set 3]).costAdjustments, a.adjustment.Fits) ∧
    (Card.least [.divide (-1), .set 3]).effectiveCost = .error .overflow := by
  refine ⟨⟨by decide, by decide⟩, ?_, rfl⟩
  simp [Card.least, Adjustment.Fits, fits32_iff]

end HexDuel
