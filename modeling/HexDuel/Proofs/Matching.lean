import HexDuel.Proofs.Readings

/-!
Conditions mean intersection. Conditions are put to objects or cells after their targets and numbers
have been found out, one condition after the other. Where nothing is chosen, picked or made, what
is found are the entries that meet each condition as it is read off the match, so that order,
repetition and spelling make no difference.
-/

set_option autoImplicit false

namespace HexDuel

theorem anyMentions_of_subset {test : Target → Bool} {cs ds : List Condition}
    (hsub : ∀ d ∈ ds, d ∈ cs) (h : anyMentions test cs = false) : anyMentions test ds = false :=
  anyMentions_eq_false_iff.2 fun d hd => anyMentions_eq_false_iff.1 h d (hsub d hd)

namespace Resolving
variable {ctx : Context} {s : Stage}

/-! ### Conditions that can be found out -/

/-- Each condition is found out for itself. -/
theorem exists_compileAll_iff {cs : List Condition} (hp : anyMentions Target.isPick cs = false)
    (hm : anyMentions Target.isMade cs = false) :
    (∃ ps, (compileAll cs).findsAt ctx s = .ok ps) ↔
      ∀ c ∈ cs, ∃ p, (compile c).findsAt ctx s = .ok p := by
  induction cs with
  | nil => exact ⟨fun _ => nofun, fun _ => ⟨[], rfl⟩⟩
  | cons c cs ih =>
    obtain ⟨hp, hps⟩ := Bool.or_eq_false_iff.1 hp
    obtain ⟨hm, hms⟩ := Bool.or_eq_false_iff.1 hm
    rw [List.forall_mem_cons, ← ih hps hms]
    constructor
    · rintro ⟨_, hrun⟩
      obtain ⟨p, hfirst, hrun⟩ := of_findsAt_bind (quiet_compile hp hm) hrun
      obtain ⟨ps, hrest, -⟩ := of_findsAt_bind (quiet_compileAll hps hms) hrun
      exact ⟨⟨p, hfirst⟩, ps, hrest⟩
    · rintro ⟨⟨p, hfirst⟩, ps, hrest⟩
      refine ⟨p :: ps, ?_⟩
      rw [compileAll, findsAt_next (quiet_compile hp hm) hfirst,
        findsAt_next (quiet_compileAll hps hms) hrest]
      rfl

/-- Conditions that can be found out are put as they are read. -/
theorem findsAt_of_compiled (hcells : ∀ e ∈ s.game.board.entries, e.2.hex ∈ Hex.all)
    {cs : List Condition} (hp : anyMentions Target.isPick cs = false)
    (hm : anyMentions Target.isMade cs = false) {ps : List Predicate}
    (hps : (compileAll cs).findsAt ctx s = .ok ps) (q : Query) :
    (resolve (q.matching cs)).findsAt ctx s =
      q.found s.game fun h o => Outcome.all (·.asks s.game ctx h o) cs := by
  rw [findsAt_matching hp hm, hps]
  exact Query.found_congr hcells (reads_compileAll hcells cs hp hm hps) q

end Resolving

/-! ### Spelling -/

/-- A neighbour, spelled as a cell at a distance of one. -/
def Condition.measured : Condition → Condition
  | .adjacentTo target => .exactDistance 1 target
  | c => c

theorem Condition.mentions_measured (test : Target → Bool) (c : Condition) :
    c.measured.mentions test = c.mentions test := by
  cases c <;> rfl

theorem anyMentions_measured {test : Target → Bool} {cs : List Condition}
    (h : anyMentions test cs = false) : anyMentions test (cs.map Condition.measured) = false := by
  rw [anyMentions_eq_false_iff] at h ⊢
  intro d hd
  obtain ⟨c, hc, rfl⟩ := List.mem_map.1 hd
  rw [Condition.mentions_measured]
  exact h c hc

theorem Condition.asks_measured (m : Match) (ctx : Context) (c : Condition) (h : Hex)
    (o : Option Piece) : c.measured.asks m ctx h o = c.asks m ctx h o := by
  cases c <;> rfl

theorem all_asks_measured (m : Match) (ctx : Context) (cs : List Condition) (h : Hex)
    (o : Option Piece) : Outcome.all (·.asks m ctx h o) (cs.map Condition.measured) =
      Outcome.all (·.asks m ctx h o) cs := by
  induction cs with
  | nil => rfl
  | cons c cs ih => rw [List.map_cons, Outcome.all, Outcome.all, ih, Condition.asks_measured]

namespace Resolving
variable {ctx : Context} {s : Stage}

theorem exists_compile_measured {c : Condition} (hp : c.mentions Target.isPick = false)
    (hm : c.mentions Target.isMade = false) :
    (∃ p, (compile c.measured).findsAt ctx s = .ok p) ↔
      ∃ p, (compile c).findsAt ctx s = .ok p := by
  cases c with
  | adjacentTo target =>
    have hquiet : Peruses false false (resolve target) := quiet_resolve hp hm
    constructor <;> rintro ⟨_, hrun⟩
    all_goals
      obtain ⟨c, htarget, hrun⟩ := of_findsAt_bind hquiet hrun
      rw [findsAt_look] at hrun
      obtain ⟨xs, hxs, -⟩ := of_findsAt_lift hrun
    · refine ⟨.inHexes (xs.flatMap Hex.neighbors), ?_⟩
      rw [compile, findsAt_next hquiet htarget, findsAt_look, hxs]
      rfl
    · refine ⟨.inHexes (Hex.all.filter fun h => xs.any fun a => h.distance a == 1), ?_⟩
      rw [Condition.measured, compile, findsAt_next hquiet htarget, findsAt_look, hxs]
      rfl
  | _ => exact Iff.rfl

theorem exists_compileAll_measured {cs : List Condition}
    (hp : anyMentions Target.isPick cs = false) (hm : anyMentions Target.isMade cs = false) :
    (∃ ps, (compileAll (cs.map Condition.measured)).findsAt ctx s = .ok ps) ↔
      ∃ ps, (compileAll cs).findsAt ctx s = .ok ps := by
  rw [exists_compileAll_iff hp hm,
    exists_compileAll_iff (anyMentions_measured hp) (anyMentions_measured hm), List.forall_mem_map]
  exact forall₂_congr fun c hc => exists_compile_measured (anyMentions_eq_false_iff.1 hp c hc)
    (anyMentions_eq_false_iff.1 hm c hc)

/-- The two spellings find the same. -/
theorem findsAt_measured (hcells : ∀ e ∈ s.game.board.entries, e.2.hex ∈ Hex.all)
    {cs : List Condition} (hp : anyMentions Target.isPick cs = false)
    (hm : anyMentions Target.isMade cs = false) (q : Query) (c : Collection) :
    (resolve (q.matching (cs.map Condition.measured))).findsAt ctx s = .ok c ↔
      (resolve (q.matching cs)).findsAt ctx s = .ok c := by
  have hp' := anyMentions_measured hp
  have hm' := anyMentions_measured hm
  by_cases hcompiled : ∃ ps, (compileAll cs).findsAt ctx s = .ok ps
  · obtain ⟨ps', hps'⟩ := (exists_compileAll_measured hp hm).2 hcompiled
    obtain ⟨ps, hps⟩ := hcompiled
    rw [findsAt_of_compiled hcells hp hm hps, findsAt_of_compiled hcells hp' hm' hps']
    simp only [all_asks_measured]
  · have hnone : ∀ {ds : List Condition}, anyMentions Target.isPick ds = false →
        anyMentions Target.isMade ds = false →
        (¬ ∃ ps, (compileAll ds).findsAt ctx s = .ok ps) →
        (resolve (q.matching ds)).findsAt ctx s ≠ .ok c := fun hp hm hds hrun => by
      rw [findsAt_matching hp hm] at hrun
      obtain ⟨ps, hps, -⟩ := Outcome.exists_of_bind hrun
      exact hds ⟨ps, hps⟩
    exact iff_of_false (hnone hp' hm' fun h => hcompiled ((exists_compileAll_measured hp hm).1 h))
      (hnone hp hm hcompiled)

/-! ### Order and repetition -/

theorem quiet_matching {cs : List Condition} (hp : anyMentions Target.isPick cs = false)
    (hm : anyMentions Target.isMade cs = false) (q : Query) :
    Peruses false false (resolve (q.matching cs)) := by
  cases q <;> exact quiet_resolve hp hm

/-- What is found for some conditions is found for the same conditions in any order and number,
unless one of them meets a number that leaves its width before another has settled the matter. -/
theorem barring_reordered (hcells : ∀ e ∈ s.game.board.entries, e.2.hex ∈ Hex.all)
    {cs ds : List Condition} (hp : anyMentions Target.isPick cs = false)
    (hm : anyMentions Target.isMade cs = false) (hsame : ∀ d, d ∈ ds ↔ d ∈ cs) {q : Query}
    {c : Collection} (h : (resolve (q.matching cs)).findsAt ctx s = .ok c) :
    Outcome.Barring s.game.board.Outgrown c ((resolve (q.matching ds)).findsAt ctx s) := by
  have hp' := anyMentions_of_subset (fun d => (hsame d).1) hp
  have hm' := anyMentions_of_subset (fun d => (hsame d).1) hm
  rw [findsAt_matching hp hm] at h
  obtain ⟨ps, hps, hfound⟩ := Outcome.exists_of_bind h
  obtain ⟨qs, hqs⟩ := (exists_compileAll_iff hp' hm').2 fun d hd =>
    (exists_compileAll_iff hp hm).1 ⟨ps, hps⟩ d ((hsame d).1 hd)
  rw [Query.found_congr hcells (reads_compileAll hcells cs hp hm hps)] at hfound
  rw [findsAt_of_compiled hcells hp' hm' hqs, (Query.barring_asked _ _ _ _).ok_eq hfound]
  have hmeet : ∀ h o, ds.all (·.met s.game ctx h o) = cs.all (·.met s.game ctx h o) := fun h o => by
    rw [Bool.eq_iff_iff, List.all_eq_true, List.all_eq_true]
    simp only [hsame]
  simp only [← hmeet]
  exact Query.barring_asked s.game ctx ds q

/-- At every stage of a command, conditions without choices, random picks and cards that are made
find the objects of the types asked for, or the cells, that meet each of them as it is read off the
match, in the order of the board, and change nothing. The same conditions in another order or number
find the same, unless they meet a number of an object that leaves its width. Neighbours and cells at
a distance of one are the same. What conditions are read from are the targets and numbers that are
found. -/
theorem matching_exact {s : Stage} (hs : s.Underway) (ctx : Context) {cs : List Condition}
    (hp : anyMentions Target.isPick cs = false) (hm : anyMentions Target.isMade cs = false)
    (q : Query) :
    (∀ (c : Collection) (ctx' : Context) (s' : Stage),
      ((resolve (q.matching cs)).run ctx).run s = .ok ((c, ctx'), s') →
        c = q.select s.game (fun h o => cs.all (·.met s.game ctx h o)) ∧ ctx' = ctx ∧ s' = s ∧
        ∀ ds, (∀ d, d ∈ ds ↔ d ∈ cs) →
          ((resolve (q.matching ds)).run ctx).run s = .ok ((c, ctx), s) ∨
          ((resolve (q.matching ds)).run ctx).run s = .error .overflow ∧
            s.game.board.Outgrown) ∧
    (∀ x, ((resolve (q.matching (cs.map Condition.measured))).run ctx).run s = .ok x ↔
      ((resolve (q.matching cs)).run ctx).run s = .ok x) ∧
    (∀ t : Target, t.mentions Target.isPick = false → t.mentions Target.isMade = false →
      ∀ x s', ((resolve t).run ctx).run s = .ok (x, s') → x.1 = t.reading s.game ctx) ∧
    ∀ n : Number, n.mentions Target.isPick = false → n.mentions Target.isMade = false →
      ∀ x s', ((evaluate n).run ctx).run s = .ok (x, s') → x.1 = n.reading s.game ctx := by
  have hcells : ∀ e ∈ s.game.board.entries, e.2.hex ∈ Hex.all := fun _ => hs.hex_mem_all
  have hquiet := quiet_matching hp hm q
  refine ⟨fun c ctx' s' hrun => ?_, fun x => ?_, fun t hp hm x s' hrun => ?_,
    fun n hp hm x s' hrun => ?_⟩
  · have hfinds := findsAt_of_run hrun
    have hread := reads_matching hcells hp hm (reads_compileAll hcells cs hp hm) hfinds
    rw [hquiet.run_eq, hfinds] at hrun
    cases hrun
    simp only [allMet_eq] at hread
    refine ⟨hread, rfl, rfl, fun ds hsame => ?_⟩
    have hp' := anyMentions_of_subset (fun d => (hsame d).1) hp
    have hm' := anyMentions_of_subset (fun d => (hsame d).1) hm
    rw [(quiet_matching hp' hm' q).run_eq]
    obtain h | ⟨h, hout⟩ := barring_reordered hcells hp hm hsame hfinds
    · rw [h]; exact .inl rfl
    · rw [h]; exact .inr ⟨rfl, hout⟩
  · rw [(quiet_matching (anyMentions_measured hp) (anyMentions_measured hm) q).run_eq,
      hquiet.run_eq, Outcome.map_eq_ok_iff, Outcome.map_eq_ok_iff]
    simp only [findsAt_measured hcells hp hm]
  · exact reads_resolve hcells t hp hm (findsAt_of_run hrun)
  · exact reads_evaluate hcells n hp hm (findsAt_of_run hrun)

/-- The free cells next to blue's core, which has more health than there are players. -/
theorem matching_exact_solo : ∃ (s : Stage) (cs : List Condition) (c : Collection), s.Underway ∧
    anyMentions Target.isPick cs = false ∧ anyMentions Target.isMade cs = false ∧
    ((resolve (Query.tiles.matching cs)).run (.command .blue)).run s
      = .ok ((c, .command .blue), s) ∧ c.size = 3 ∧
    c = Query.tiles.select s.game (fun h o => cs.all (·.met s.game (.command .blue) h o)) ∧
    ((resolve (Query.tiles.matching (cs.map Condition.measured))).run (.command .blue)).run s
      = .ok ((c, .command .blue), s) ∧
    (((resolve (Query.tiles.matching (cs ++ cs.reverse))).run (.command .blue)).run s
        = .ok ((c, .command .blue), s) ∨
      ((resolve (Query.tiles.matching (cs ++ cs.reverse))).run (.command .blue)).run s
        = .error .overflow ∧ s.game.board.Outgrown) := by
  let cs : List Condition := [.adjacentTo (.piecesMatching (.only .core) [.controlledBy .selfPlayer,
    .attributeIs .health .greaterThan (.count .allPlayers)]), .unoccupied]
  have hp : anyMentions Target.isPick cs = false := rfl
  have hm : anyMentions Target.isMade cs = false := rfl
  have hrun : ((MatchSetup.solo []).start.holds fun m =>
      (((resolve (Query.tiles.matching cs)).run (.command .blue)).run ⟨m, []⟩).holds fun y =>
        y.1.1.size == 3) = true := by decide +kernel
  obtain ⟨m, hstart, hrun⟩ := Outcome.exists_of_holds hrun
  obtain ⟨⟨⟨c, ctx'⟩, s'⟩, hrun, hsize⟩ := Outcome.exists_of_holds hrun
  have hs : Stage.Underway ⟨m, []⟩ := .rest (.start hstart)
  obtain ⟨hexact, hmeasured, -, -⟩ := matching_exact hs (.command .blue) hp hm .tiles
  obtain ⟨hc, rfl, rfl, horder⟩ := hexact c ctx' s' hrun
  exact ⟨_, cs, c, hs, hp, hm, hrun, eq_of_beq hsize, hc, (hmeasured _).2 hrun,
    horder (cs ++ cs.reverse) fun d => by simp⟩

end Resolving
end HexDuel
