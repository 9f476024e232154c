import HexDuel.Proofs.Holdings
import Mathlib.Probability.Distributions.Uniform
import Mathlib.Data.Nat.Factorial.Basic

/-!
Shuffling is fair. A shuffle asks for one number below each of a fixed list of bounds. With these
numbers taken as free, it is a bijection from all that could be drawn onto the orders of a list
without repetition, so that fair numbers give each order with the same probability.
-/

set_option autoImplicit false

namespace HexDuel

namespace Generator

variable {α : Type}

/-! ### What a shuffle draws -/

/-- The bounds that a shuffle of `k + 1` entries draws below: from `k + 1` down to two. -/
def bounds : Nat → List Nat
  | 0 => []
  | k + 1 => (k + 2) :: bounds k

/-- One number below each bound in turn. -/
def draws : List Nat → Generator → List Nat × Generator
  | [], g => ([], g)
  | n :: ns, g =>
    let (j, g) := g.draw n
    let (js, g) := draws ns g
    (j :: js, g)

/-- What a shuffle makes of a list when the numbers it draws are given. -/
def arrange : List Nat → List α → List α
  | [], xs => xs
  | j :: js, xs => arrange js (exchange xs (js.length + 1) j)

/-- Each number is below its bound. -/
def Within (js ns : List Nat) : Prop := List.Forall₂ (· < ·) js ns

theorem bounds_eq (k : Nat) : bounds k = (List.range' 2 k).reverse := by
  induction k with
  | zero => rfl
  | succ k ih => rw [bounds, List.range'_concat, List.reverse_concat, ih, Nat.one_mul, Nat.add_comm]

theorem length_of_within {js : List Nat} {k : Nat} (h : Within js (bounds k)) : js.length = k := by
  simpa [bounds_eq] using h.length_eq

theorem draws_within (k : Nat) (g : Generator) : Within (draws (bounds k) g).1 (bounds k) := by
  induction k generalizing g with
  | zero => exact .nil
  | succ k ih => exact .cons (draw_lt (Nat.succ_pos _) g) (ih _)

theorem shuffleFrom_eq (k : Nat) (xs : List α) (g : Generator) :
    shuffleFrom k xs g = (arrange (draws (bounds k) g).1 xs, (draws (bounds k) g).2) := by
  induction k generalizing xs g with
  | zero => rfl
  | succ k ih =>
    simp only [shuffleFrom, bounds, draws, arrange, ih, length_of_within (draws_within k _)]

theorem arrange_perm (js : List Nat) (xs : List α) : (arrange js xs).Perm xs := by
  induction js generalizing xs with
  | nil => exact .refl xs
  | cons j js ih => exact (ih _).trans (exchange_perm xs _ j)

/-! ### Exchanges -/

theorem getElem?_exchange_left {xs : List α} {i j : Nat} (hi : i < xs.length) (hj : j < xs.length) :
    (exchange xs i j)[i]? = xs[j]? := by
  simp only [exchange, List.getElem?_eq_getElem hi, List.getElem?_eq_getElem hj]
  by_cases h : j = i
  · subst h; simp [hj]
  · rw [List.getElem?_set_ne h, List.getElem?_set_self hi]

theorem getElem?_exchange_of_ne {xs : List α} {i j p : Nat} (hi : p ≠ i) (hj : p ≠ j) :
    (exchange xs i j)[p]? = xs[p]? := by
  unfold exchange
  split
  · rw [List.getElem?_set_ne (Ne.symm hj), List.getElem?_set_ne (Ne.symm hi)]
  · rfl

/-- The places behind those that are still to be exchanged stay as they are. -/
theorem getElem?_arrange {js : List Nat} {k p : Nat} (hjs : Within js (bounds k)) (hp : k < p)
    (xs : List α) : (arrange js xs)[p]? = xs[p]? := by
  induction k generalizing js xs with
  | zero => cases hjs; rfl
  | succ k ih =>
    obtain _ | ⟨hj, hjs⟩ := hjs
    rw [arrange, ih hjs (by omega), length_of_within hjs, getElem?_exchange_of_ne (by omega) (by omega)]

/-- The first number drawn says which entry comes last. -/
theorem getElem?_arrange_cons {j : Nat} {js : List Nat} {k : Nat} (hj : j < k + 2)
    (hjs : Within js (bounds k)) {xs : List α} (hxs : k + 1 < xs.length) :
    (arrange (j :: js) xs)[k + 1]? = xs[j]? := by
  rw [arrange, getElem?_arrange hjs (Nat.lt_succ_self k), length_of_within hjs,
    getElem?_exchange_left hxs (by omega)]

/-! ### Every order from one sequence of numbers -/

theorem arrange_inj {k : Nat} {xs : List α} (hxs : xs.Nodup) (hk : k < xs.length)
    {js js' : List Nat} (hjs : Within js (bounds k)) (hjs' : Within js' (bounds k))
    (h : arrange js xs = arrange js' xs) : js = js' := by
  induction k generalizing xs js js' with
  | zero => cases hjs; cases hjs'; rfl
  | succ k ih =>
    obtain _ | ⟨hj, hrest⟩ := hjs
    obtain _ | ⟨hj', hrest'⟩ := hjs'
    rename_i j js j' js'
    -- The first number settles the last entry, and the others what is left before it.
    have hlast : xs[j]? = xs[j']? := by
      rw [← getElem?_arrange_cons hj hrest hk, h, getElem?_arrange_cons hj' hrest' hk]
    obtain rfl : j = j' := (List.getElem?_inj (by omega) hxs).1 hlast
    have hperm := exchange_perm xs (k + 1) j
    rw [arrange, arrange, length_of_within hrest, length_of_within hrest'] at h
    rw [ih (hperm.nodup_iff.2 hxs) (by rw [hperm.length_eq]; omega) hrest hrest' h]

/-- Two lists with the same entries differ in no place if they differ at most in the first. -/
theorem eq_of_perm_of_tail {xs ys : List α} (hxs : xs.Nodup) (hys : ys.Perm xs)
    (htail : ∀ p, 0 < p → ys[p]? = xs[p]?) : ys = xs := by
  rcases xs with _ | ⟨x, xs⟩
  · exact hys.eq_nil
  rcases ys with _ | ⟨y, ys⟩
  · exact absurd hys.length_eq (by simp)
  obtain rfl : ys = xs := List.ext_getElem? fun p => by simpa using htail (p + 1) p.succ_pos
  rcases List.mem_cons.1 (hys.subset (List.mem_cons_self ..)) with rfl | hy
  · rfl
  · exact absurd hy (List.nodup_cons.1 (hys.nodup_iff.2 hxs)).1

theorem exists_arrange {k : Nat} {xs ys : List α} (hxs : xs.Nodup) (hys : ys.Perm xs)
    (hk : k < xs.length) (hrest : ∀ p, k < p → ys[p]? = xs[p]?) :
    ∃ js, Within js (bounds k) ∧ arrange js xs = ys := by
  induction k generalizing xs with
  | zero => exact ⟨[], .nil, (eq_of_perm_of_tail hxs hys hrest).symm⟩
  | succ k ih =>
    have hky : k + 1 < ys.length := by rw [hys.length_eq]; exact hk
    -- The entry that is to come last, and where it stands now.
    obtain ⟨j, hj, hjy⟩ := List.getElem_of_mem (hys.subset (List.getElem_mem hky))
    have hjk : j < k + 2 := by
      by_contra hfar
      have hsame : ys[j]? = ys[k + 1]? := by
        rw [hrest j (by omega), List.getElem?_eq_getElem hj, hjy, List.getElem?_eq_getElem hky]
      have := (List.getElem?_inj (by rw [hys.length_eq]; exact hj) (hys.nodup_iff.2 hxs)).1 hsame
      omega
    have hperm := exchange_perm xs (k + 1) j
    obtain ⟨js, hjs, hys'⟩ := ih (hperm.nodup_iff.2 hxs) (hys.trans hperm.symm)
      (by rw [hperm.length_eq]; omega) fun p hp => by
        rcases Nat.eq_or_lt_of_le hp with rfl | hp
        · rw [getElem?_exchange_left hk hj, List.getElem?_eq_getElem hj, hjy,
            List.getElem?_eq_getElem hky]
        · rw [getElem?_exchange_of_ne (by omega) (by omega), hrest p hp]
    exact ⟨j :: js, .cons hjk hjs, by rw [arrange, length_of_within hjs, hys']⟩

theorem arrange_bijOn {xs : List α} (hxs : xs.Nodup) :
    Set.BijOn (arrange · xs) {js | Within js (bounds (xs.length - 1))} {ys | ys.Perm xs} := by
  rcases xs with _ | ⟨x, xs⟩
  · refine ⟨fun js _ => arrange_perm js [], fun js hjs js' hjs' _ => ?_, fun ys hys => ?_⟩
    · cases hjs; cases hjs'; rfl
    · exact ⟨[], .nil, (List.Perm.eq_nil hys).symm⟩
  · refine ⟨fun js _ => arrange_perm js _, fun js hjs js' hjs' h => ?_, fun ys hys => ?_⟩
    · exact arrange_inj hxs (Nat.lt_succ_self _) hjs hjs' h
    · refine exists_arrange hxs hys (Nat.lt_succ_self _) fun p hp => ?_
      rw [List.getElem?_eq_none (by rw [List.Perm.length_eq hys]; exact hp),
        List.getElem?_eq_none hp]

/-! ### Fair numbers -/

open scoped Nat ENNReal

/-- Independent numbers, each one fair below its bound. -/
noncomputable def fair : Nat → PMF (List Nat)
  | 0 => PMF.pure []
  | k + 1 => (PMF.uniformOfFintype (Fin (k + 2))).bind fun j => (fair k).map (j.val :: ·)

/-- A result that comes from one outcome only is as likely as that outcome. -/
theorem map_apply_eq {β γ : Type} {p : PMF β} {f : β → γ} {b : β}
    (hf : ∀ a ∈ p.support, f a = f b → a = b) : p.map f (f b) = p b := by
  rw [PMF.map_apply, tsum_eq_single b, if_pos rfl]
  intro a hne
  by_cases ha : a ∈ p.support
  · exact if_neg fun h => hne (hf a ha h.symm)
  · simp [(p.apply_eq_zero_iff a).2 ha]

theorem within_of_mem_support {k : Nat} {js : List Nat} (h : js ∈ (fair k).support) :
    Within js (bounds k) := by
  induction k generalizing js with
  | zero =>
    rw [fair, PMF.support_pure, Set.mem_singleton_iff] at h
    exact h ▸ .nil
  | succ k ih =>
    rw [fair, PMF.mem_support_bind_iff] at h
    obtain ⟨j, -, h⟩ := h
    obtain ⟨js', hjs', rfl⟩ := (PMF.mem_support_map_iff ..).1 h
    exact .cons j.isLt (ih hjs')

theorem fair_apply {k : Nat} {js : List Nat} (hjs : Within js (bounds k)) :
    fair k js = ((k + 1)! : ℝ≥0∞)⁻¹ := by
  induction k generalizing js with
  | zero => cases hjs; simp [fair]
  | succ k ih =>
    obtain _ | ⟨hj, hrest⟩ := hjs
    rename_i j js
    have hself : ((fair k).map (j :: ·)) (j :: js) = ((k + 1)! : ℝ≥0∞)⁻¹ :=
      (map_apply_eq fun _ _ h => (List.cons.inj h).2).trans (ih hrest)
    have hother : ∀ i : Fin (k + 2), i ≠ ⟨j, hj⟩ → ((fair k).map (i.val :: ·)) (j :: js) = 0 :=
      fun i hi => by
        refine (PMF.apply_eq_zero_iff _ _).2 fun h => hi (Fin.ext ?_)
        obtain ⟨_, -, h⟩ := (PMF.mem_support_map_iff ..).1 h
        exact (List.cons.inj h).1
    rw [fair, PMF.bind_apply, tsum_eq_single ⟨j, hj⟩ fun i hi => by rw [hother i hi, mul_zero],
      hself, PMF.uniformOfFintype_apply, Fintype.card_fin, Nat.factorial_succ (k + 1),
      Nat.cast_mul, ENNReal.mul_inv (.inr (ENNReal.natCast_ne_top _))
        (.inr (by exact_mod_cast Nat.factorial_ne_zero _))]

/-- With fair numbers every order is equally likely. -/
theorem map_arrange_fair {xs ys : List α} (hxs : xs.Nodup) (hys : ys.Perm xs) :
    (fair (xs.length - 1)).map (arrange · xs) ys = (xs.length ! : ℝ≥0∞)⁻¹ := by
  obtain ⟨-, hinj, hsurj⟩ := arrange_bijOn hxs
  obtain ⟨js, hjs, rfl⟩ := hsurj hys
  rw [map_apply_eq fun js' hjs' h => hinj (within_of_mem_support hjs') hjs h, fair_apply hjs]
  cases xs <;> rfl

open Classical in
/-- A shuffle of `n` entries draws `n - 1` numbers, the first below `n` and the last below two, and
the list it makes is a matter of these numbers. The numbers below these bounds, taken as free, stand
for the orders of a list of distinct entries one to one, and fair and independent numbers make all
its orders equally likely. What a list holds is never changed. -/
theorem shuffle_unbiased (xs : List α) :
    bounds (xs.length - 1) = (List.range' 2 (xs.length - 1)).reverse ∧
    (∀ g : Generator, Within (draws (bounds (xs.length - 1)) g).1 (bounds (xs.length - 1)) ∧
      g.shuffle xs = (arrange (draws (bounds (xs.length - 1)) g).1 xs,
        (draws (bounds (xs.length - 1)) g).2) ∧
      (g.shuffle xs).1.Perm xs) ∧
    (∀ js, (arrange js xs).Perm xs) ∧
    (xs.Nodup →
      Set.BijOn (arrange · xs) {js | Within js (bounds (xs.length - 1))} {ys | ys.Perm xs} ∧
      ∀ ys, (fair (xs.length - 1)).map (arrange · xs) ys
        = if ys.Perm xs then (xs.length ! : ℝ≥0∞)⁻¹ else 0) := by
  refine ⟨bounds_eq _, fun g => ⟨draws_within _ g, shuffleFrom_eq _ xs g, shuffle_perm g xs⟩,
    fun js => arrange_perm js xs, fun hxs => ⟨arrange_bijOn hxs, fun ys => ?_⟩⟩
  split
  · exact map_arrange_fair hxs ‹_›
  · rename_i hne
    refine (PMF.apply_eq_zero_iff _ _).2 fun h => hne ?_
    obtain ⟨js, -, rfl⟩ := (PMF.mem_support_map_iff ..).1 h
    exact arrange_perm js xs

/-- Three entries: six pairs of numbers for six orders, each of them once in six times. -/
theorem shuffle_unbiased_three :
    [0, 1, 2].Nodup ∧
    Set.BijOn (arrange · [0, 1, 2]) {js | Within js [3, 2]} {ys | ys.Perm [0, 1, 2]} ∧
    (fair 2).map (arrange · [0, 1, 2]) [2, 0, 1] = (6 : ℝ≥0∞)⁻¹ := by
  have hxs : [0, 1, 2].Nodup := by decide
  obtain ⟨-, -, -, hfair⟩ := shuffle_unbiased [0, 1, 2]
  obtain ⟨hbij, heach⟩ := hfair hxs
  refine ⟨hxs, hbij, (heach [2, 0, 1]).trans ?_⟩
  rw [if_pos (by decide)]
  rfl

end Generator
end HexDuel
