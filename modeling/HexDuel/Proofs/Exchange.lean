import HexDuel.Proofs.Assault
import HexDuel.Proofs.Untriggered

/-!
How two objects exchange blows where nothing answers. How hard each strikes is settled when combat
begins: what the first blow does to either side, or to the abilities of others that strengthen or
weaken them, is of no account for the second. A blow comes off the base health once, and whoever is
hit is judged by what it has left right then.
-/

set_option autoImplicit false

namespace HexDuel

/-! ### Numbers and marks -/

/-- The same base numbers and the same marks. -/
structure Piece.SameBody (p q : Piece) : Prop where
  stats : q.stats = p.stats
  marks : p.SameMarks q

namespace Piece.SameBody

theorem trans {p q r : Piece} (h : p.SameBody q) (h' : q.SameBody r) : p.SameBody r :=
  ⟨h'.stats.trans h.stats, h.marks.trans h'.marks⟩

end Piece.SameBody

theorem Piece.upkept_sameBody : Upkept SameBody :=
  .of_rewritten (fun _ _ _ => .trans) fun p q h => by
    obtain ⟨_, _, _, _, _, rfl⟩ := h
    exact ⟨rfl, rfl, rfl⟩

/-- The object as a blow leaves it. What strikes with less than nothing does not heal. -/
def Piece.wounded (amount : Int) (p : Piece) : Piece := p.setHealth (p.stats.health - max amount 0)

theorem Board.Becomes.rel {R : Piece → Piece → Prop} {b b' : Board} (h : b.Becomes R b')
    (id : PieceId) : Option.Rel R (b.get? id) (b'.get? id) := by
  obtain ⟨g, hg, rfl⟩ := h
  rw [get?_map]
  cases b.get? id with
  | none => exact .none
  | some p => exact .some (hg (id, p))

theorem Piece.SameBody.rel_trans {o o' o'' : Option Piece} (h : Option.Rel SameBody o o')
    (h' : Option.Rel SameBody o' o'') : Option.Rel SameBody o o'' := by
  cases h with
  | none => exact h'
  | some hsame =>
    cases h' with
    | some hsame' => exact .some (hsame.trans hsame')

theorem Piece.SameBody.exists_of_rel {p : Piece} {o : Option Piece}
    (h : Option.Rel SameBody (some p) o) : ∃ q, o = some q ∧ p.SameBody q := by
  cases h with
  | some hsame => exact ⟨_, rfl, hsame⟩

/-- The object has been judged by what it was then: it is gone if it was doomed, and otherwise it is
there with the same numbers and marks. -/
inductive Board.Judges (b : Board) (id : PieceId) (p : Piece) : Prop where
  | removed : p.isDoomed = .ok true → b.get? id = none → Judges b id p
  | spared {q : Piece} : p.isDoomed = .ok false → b.get? id = some q → p.SameBody q → Judges b id p

/-- Nothing that leaves the numbers and marks alone changes the judgement. -/
theorem Board.Judges.later {b b' : Board} {id : PieceId} {p : Piece} (h : b.Judges id p)
    (h' : Option.Rel Piece.SameBody (b.get? id) (b'.get? id)) : b'.Judges id p := by
  cases h with
  | removed hdoomed hnone =>
    rw [hnone] at h'
    refine .removed hdoomed (Option.eq_none_iff_forall_ne_some.2 fun q hq => ?_)
    rw [hq] at h'
    cases h'
  | spared hspared hq hsame =>
    obtain ⟨r, hr, hsame'⟩ := Piece.SameBody.exists_of_rel (hq ▸ h')
    exact .spared hspared hr (hsame.trans hsame')

/-! ### One blow -/

/-- The object has been hit and judged as the blow left it. All the others are as they were, as far
as numbers and marks go, and nothing answers yet. -/
structure Stage.Struck (s : Stage) (id : PieceId) (hit : Piece) (s' : Stage) : Prop where
  untriggered : s'.Untriggered
  judged : s'.game.board.Judges id hit
  others : ∀ k, k ≠ id → Option.Rel Piece.SameBody (s.game.board.get? k) (s'.game.board.get? k)

/-- The stage at which it is announced that the object was hit. -/
def Stage.wound (s : Stage) (id : PieceId) (p : Piece) (amount : Int) : Stage :=
  s.map fun m => (m.changePiece id (·.setHealth (p.stats.health - max amount 0))).addLog none
    s!"{p.card.mention} received {amount} damage" [p.card]

variable {s s' : Stage} {run : Runner} {id : PieceId} {p : Piece}

theorem TakenOff.others {k : PieceId} (h : TakenOff s id p s') (hk : k ≠ id) :
    Option.Rel Piece.SameBody (s.game.board.get? k) (s'.game.board.get? k) := by
  have hupkeep := (Piece.upkept_sameBody.tended h.removed.tended).rel k
  rwa [Stage.map, Match.changeBoard, Board.get?_erase, if_neg hk] at hupkeep

namespace Play

theorem sameBody_reapply (h : reapply.run s = .ok ((), s')) :
    s.game.board.Becomes Piece.SameBody s'.game.board :=
  Piece.upkept_sameBody.tended (goes_reapply _ _ _ h)

theorem struck_of_destroyIfDoomed {cause : Option Cause} {ctx : Context} (hs : s.Untriggered)
    (hp : s.game.board.get? id = some p) (hstanding : p.falling = false)
    (h : (destroyIfDoomed run id cause ctx).run s = .ok ((), s')) : s.Struck id p s' := by
  have hwhole := h
  have hrest := of_run_piece? h
  rw [hp] at hrest
  obtain ⟨doomed, s₁, hlift, hthen⟩ := run_bind hrest
  obtain ⟨hdoomed, rfl⟩ := of_run_lift hlift
  cases doomed with
  | false =>
    have hreapply : reapply.run s₁ = .ok ((), s') := hthen
    obtain ⟨q, hq, hsame⟩ := (sameBody_reapply hreapply).get?_of_some hp
    exact ⟨untriggered_reapply.untriggered hreapply hs, .spared hdoomed hq hsame,
      fun k _ => (sameBody_reapply hreapply).rel k⟩
  | true =>
    obtain ⟨fallen, buried, hoccur, hburied, hreapply⟩ :=
      destroyed_of_run hp hdoomed hstanding hwhole
    have htoppled : (s₁.topple id p.card).Untriggered :=
      Stage.StaysUntriggered.piece (s := s₁) id (f := (·.fall)) (fun _ hp => hp.of_eq rfl rfl) hs
    obtain rfl := silent_of_announced hoccur htoppled
    have hgone := hburied.spares.2
    have hfall : (s₁.topple id p.card).game.board.get? id = some p.fall :=
      (Board.get?_modify_self _ _ _).trans (congrArg (Option.map (·.fall)) hp)
    cases hburied with
    | gone hnone => cases hfall.symm.trans hnone
    | @discard q mid htaken =>
      have hupkeep := sameBody_reapply hreapply
      rw [mid.board_discarded] at hgone hupkeep
      have hburied : (mid.map fun m => m.checkVictory.discard q.owner q.card.reset).Untriggered :=
        Stage.StaysUntriggered.of_board (mid.board_discarded q.owner q.card.reset)
          (htaken.untriggered htoppled)
      refine ⟨untriggered_reapply.untriggered hreapply hburied,
        .removed hdoomed (hupkeep.get?_eq_none hgone), fun k hk => ?_⟩
      have hothers := htaken.others hk
      rw [Stage.Dooms.get?_topple (.inl rfl) p.card hk] at hothers
      exact Piece.SameBody.rel_trans hothers (hupkeep.rel k)

/-- A blow comes off the base health. -/
theorem struck_of_dealDamage {amount : Int} {cause : Option Cause} {ctx : Context}
    (hs : s.Untriggered) (hp : s.game.board.get? id = some p) (hstanding : p.falling = false)
    (h : (dealDamage run id amount cause ctx).run s = .ok ((), s')) :
    s.Struck id (p.wounded amount) s' := by
  have hrest := of_run_piece? h
  rw [hp] at hrest
  dsimp only at hrest
  rw [hstanding] at hrest
  obtain ⟨health, s₁, hlift, hthen⟩ := run_bind hrest
  obtain ⟨hhealth, rfl⟩ := of_run_lift hlift
  obtain rfl := (Outcome.int32_eq_ok_iff.1 hhealth).1
  obtain ⟨_, s₂, hwound, hthen⟩ := run_bind hthen
  cases hwound
  obtain ⟨_, s₃, hlog, hthen⟩ := run_bind hthen
  cases hlog
  obtain ⟨_, hit, hoccur, hdestroy⟩ := run_bind hthen
  have hquiet : (s₁.wound id p amount).Untriggered :=
    Stage.StaysUntriggered.piece (s := s₁) id (f := (·.setHealth (p.stats.health - max amount 0)))
      (fun _ hq => hq.of_eq rfl rfl) hs
  obtain rfl := silent_of_announced (s := s₁.wound id p amount) hoccur hquiet
  have hhit : (s₁.wound id p amount).game.board.get? id = some (p.wounded amount) :=
    (Board.get?_modify_self _ _ _).trans (congrArg (Option.map _) hp)
  have hstruck := struck_of_destroyIfDoomed hquiet hhit hstanding hdestroy
  refine ⟨hstruck.untriggered, hstruck.judged, fun k hk => ?_⟩
  have hother : (s₁.wound id p amount).game.board.get? k = s₁.game.board.get? k :=
    Board.get?_modify_of_ne _ hk _
  exact hother ▸ hstruck.others k hk

end Play

/-! ### Both blows -/

namespace Attempt

/-- Where nothing answers, combat is simultaneous. The defender takes what the attacker strikes with
when combat begins, and the attacker what the defender strikes back with then, if that is anything:
neither the defender's fall nor what it does to other abilities changes it. Each blow comes off the
base health once, and decides right then whether the object is removed. All others stay as they
are. -/
theorem combat_simultaneous {attacker defender : PieceId} {a d : Piece} {ctx : Context}
    (hs : s.Untriggered) (ha : s.game.board.get? attacker = some a)
    (hd : s.game.board.get? defender = some d) (hne : attacker ≠ defender)
    (hastanding : a.falling = false) (hdstanding : d.falling = false)
    (h : (combat run attacker defender ctx).run s = .ok ((), s')) :
    ∃ (attack back : Int) (mid : Stage) (a' : Piece), a.attack = .ok attack ∧
      retaliation d = .ok back ∧
      (Play.dealDamage run defender attack (some .combat) ctx).run
        ⟨s.game, .combat a d :: s.trace⟩ = .ok ((), mid) ∧
      mid.game.board.get? attacker = some a' ∧ a.SameBody a' ∧
      s'.game.board.Judges defender (d.wounded attack) ∧
      (if 0 < back then s'.game.board.Judges attacker (a'.wounded back)
        else s'.game.board.get? attacker = some a') ∧
      ∀ k, k ≠ attacker → k ≠ defender →
        Option.Rel Piece.SameBody (s.game.board.get? k) (s'.game.board.get? k) := by
  obtain ⟨attack, back, mid, hattack, hback, hfirst, hsecond⟩ := blows_of_combat ha hd h
  have hhit := Play.struck_of_dealDamage (s := ⟨s.game, .combat a d :: s.trace⟩) hs hd hdstanding
    hfirst
  obtain ⟨a', ha', hsame⟩ := Piece.SameBody.exists_of_rel (ha ▸ hhit.others attacker hne)
  refine ⟨attack, back, mid, a', hattack, hback, hfirst, ha', hsame, ?_⟩
  have hblow := Play.of_run_look hsecond
  have hthere : mid.game.board.contains attacker = true := by rw [Board.contains, ha']; rfl
  by_cases hpos : 0 < back
  · rw [if_pos (by simp [hpos, hthere])] at hblow
    have hback := Play.struck_of_dealDamage hhit.untriggered ha'
      (hsame.marks.2.trans hastanding) hblow
    rw [if_pos hpos]
    exact ⟨hhit.judged.later (hback.others defender hne.symm), hback.judged, fun k hka hkd =>
      Piece.SameBody.rel_trans (hhit.others k hkd) (hback.others k hka)⟩
  · rw [if_neg (by simp [hpos])] at hblow
    cases hblow
    rw [if_neg hpos]
    exact ⟨hhit.judged, ha', fun k _ hkd => hhit.others k hkd⟩

/-- Blue's robot faces one of orange's, which makes robots healthier. -/
def duel : MatchSetup := .solo [.making .robot ⟨some 3, 2, some 1⟩,
  .spawnPiece (.generateCard .robot ⟨some 2, 2, some 1⟩ none) (.tilesMatching [.unoccupied])
    .opponent,
  .giveAbility (.piecesMatching (.only .robot) [.controlledBy .opponent])
    (.setAbility ⟨.piecesInPlay (.only .robot), .adjust .health (.add (.const 1)), none⟩) none]

/-- Orange's robot falls, and blue's takes the blow all the same. It would have stood it with the
health that it had before. -/
theorem combat_simultaneous_duel : ∃ (s s' : Stage) (a d a' : Piece),
    s.Untriggered ∧ s.game.board.get? 4 = some a ∧ s.game.board.get? 6 = some d ∧
    a.falling = false ∧ d.falling = false ∧
    (combat (Play.runner Match.maxDepth) 4 6 (.command .blue)).run s = .ok ((), s') ∧
    a.attack = .ok 3 ∧ a.health = .ok 3 ∧ retaliation d = .ok 2 ∧ a.SameBody a' ∧
    s'.game.board.Judges 6 (d.wounded 3) ∧ s'.game.board.Judges 4 (a'.wounded 2) ∧
    s'.game.board.get? 6 = none ∧ s'.game.board.get? 4 = none := by
  have hrun : (duel.start.holds fun m => (m.submitTraced Match.maxDepth .playSolo).holds fun x =>
      (x.1.board.entries.all fun e => decide (e.2.triggers.length = 0) &&
        e.2.passives.all (!·.effect.givesTrigger)) &&
      ((x.1.board.get? 4).any fun a => !a.falling && (a.attack.holds (· == 3)) &&
        a.health.holds (· == 3)) &&
      ((x.1.board.get? 6).any fun d => !d.falling && (retaliation d).holds (· == 2)) &&
      ((combat (Play.runner Match.maxDepth) 4 6 (.command .blue)).run ⟨x.1, []⟩).holds fun y =>
        (y.2.game.board.get? 6).isNone && (y.2.game.board.get? 4).isNone) = true := by
    decide +kernel
  obtain ⟨_, -, hrun⟩ := Outcome.exists_of_holds hrun
  obtain ⟨⟨m, _⟩, -, hrun⟩ := Outcome.exists_of_holds hrun
  simp only [Bool.and_eq_true, Bool.not_eq_true', List.all_eq_true, decide_eq_true_eq,
    List.length_eq_zero_iff] at hrun
  obtain ⟨⟨⟨hquiet, hattacker⟩, hdefender⟩, hfight⟩ := hrun
  obtain ⟨a, ha, hnumbers⟩ := (Option.any_eq_true _ _).1 hattacker
  obtain ⟨d, hd, hnumbers'⟩ := (Option.any_eq_true _ _).1 hdefender
  simp only [Bool.and_eq_true, Bool.not_eq_true'] at hnumbers hnumbers'
  obtain ⟨⟨hastanding, hattack⟩, hhealth⟩ := hnumbers
  obtain ⟨hdstanding, hretaliation⟩ := hnumbers'
  obtain ⟨attack, hattack, heq⟩ := Outcome.exists_of_holds hattack
  obtain rfl := eq_of_beq heq
  obtain ⟨health, hhealth, heq⟩ := Outcome.exists_of_holds hhealth
  obtain rfl := eq_of_beq heq
  obtain ⟨back, hretaliation, heq⟩ := Outcome.exists_of_holds hretaliation
  obtain rfl := eq_of_beq heq
  obtain ⟨⟨_, s'⟩, hcombat, hend⟩ := Outcome.exists_of_holds hfight
  simp only [Bool.and_eq_true, Option.isNone_iff_eq_none] at hend
  have hs : Stage.Untriggered ⟨m, []⟩ := fun e he => ⟨(hquiet e he).1, (hquiet e he).2⟩
  obtain ⟨attack, back, mid, a', hattack', hretaliation', -, -, hsame, hdjudged, hajudged, -⟩ :=
    combat_simultaneous hs ha hd (by decide) hastanding hdstanding hcombat
  obtain rfl := Except.ok.inj (hattack.symm.trans hattack')
  obtain rfl := Except.ok.inj (hretaliation.symm.trans hretaliation')
  exact ⟨⟨m, []⟩, s', a, d, a', hs, ha, hd, hastanding, hdstanding, hcombat, hattack, hhealth,
    hretaliation, hsame, hdjudged, hajudged, hend.1, hend.2⟩

end Attempt
end HexDuel
