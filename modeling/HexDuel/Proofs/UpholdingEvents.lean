import HexDuel.Proofs.UpholdingTargets

/-!
Upkeep, events and turns uphold a creed. A runner need not cope with all actions; an event is answered
where the runner copes with what its triggers do.
-/

set_option autoImplicit false

namespace HexDuel

open Outcome (Meets)

variable {K : Creed} {strict : Bool}

/-! ### Upkeep -/

namespace Play

theorem upholds_grant (hK : K.Coherent) (id : PieceId) {sentence : Sentence}
    (h : K.admits sentence) {source : Option AbilityId} (hsource : ∀ n ∈ source, FitsId n)
    {duration : Option Nat} (hduration : ∀ n ∈ duration, FitsCount n) :
    Upholds K strict (fun _ => True) (grant id sentence source duration) := by
  have hlasts : ∀ d : Option Nat, (∀ n ∈ d, FitsCount n) → ∀ n ∈ duration.or d, FitsCount n := by
    intro d hd
    cases duration with
    | none => exact hd
    | some n => exact hduration
  refine (Upholds.piece? id).next fun o _ => ?_
  split
  · exact .pure trivial
  · dsimp only
    split
    · exact .pure trivial
    · exact .change fun _ hm => hm.changePiece id fun _ hp => hp.setGrants _ false
    · rename_i phrase _
      obtain ⟨targets, effect, d⟩ := phrase
      refine Upholds.freshId.next fun n hn => .change fun _ hm => hm.changePiece id fun _ hp => ?_
      exact hp.addPassive {
        id := hn
        source := hsource
        admits := hK.ability _ _ _ h
        duration := hlasts d (hK.fits _ h).2.2
        applied := fun _ hc => nomatch hc }
    · rename_i phrase _
      obtain ⟨spec, actions, overrides, d⟩ := phrase
      refine Upholds.freshId.next fun n hn => .change fun _ hm => hm.changePiece id fun _ hp => ?_
      exact hp.addTrigger {
        id := hn
        source := hsource
        admits := hK.trigger _ _ _ _ h
        duration := hlasts d (hK.fits _ h).2.2 }

end Play

namespace Resolving

theorem upholds_statusKind {phrase : StatusPhrase} (h : phrase.Fits) :
    Upholds K strict (·.Fits) (statusKind phrase) := by
  cases phrase with
  | canOnlyAttack target => exact (upholds_resolvePieces h).next fun _ hids => .pure hids
  | _ => exact .pure trivial

theorem upholds_onEachPiece {targets : Collection} (htargets : targets.Abides K)
    {f : Piece → Piece} (hf : ∀ p : Piece, p.Abides K → (f p).Abides K) :
    Upholds K strict (fun _ => True) (onEachPiece targets f) :=
  .look fun _ hm => (Upholds.outcome (htargets.meets_piecesIn hm)).next fun ids _ =>
    .change fun _ hm' => hm'.changePieces ids hf

theorem upholds_applyPassive (hK : K.Coherent) {a : Passive} (ha : a.Abides K)
    {targets : Collection} (htargets : targets.Abides K) :
    Upholds K strict (fun _ => True) (applyPassive a targets) := by
  have hid := ha.id
  have hadmits := ha.admits
  have heffect := (hK.fits _ ha.admits).2.1
  unfold applyPassive
  split
  · rename_i scope modifier hadjust
    rw [hadjust] at heffect
    refine (upholds_resolveModifier heffect).next fun adjustment hadjustment => ?_
    split
    · exact upholds_onEachPiece htargets fun _ hp => hp.adjust hid hadjustment scope
    · split
      · exact .change fun _ hm => .foldl (fun c _ _ hm' => hm'.adjustCostOf hid hadjustment c.id) hm
      · exact .pure trivial
    · exact .fail (by rintro ⟨⟩)
  · rename_i phrase hstatus
    rw [hstatus] at heffect
    exact (upholds_statusKind heffect).next fun _ hkind =>
      upholds_onEachPiece htargets fun _ hp => hp.addStatus ⟨hid, hkind⟩
  · rename_i sentence hgrant
    rw [hgrant] at hadmits
    split
    · exact .pure trivial
    · refine .look fun _ hm => (Upholds.outcome (htargets.meets_piecesIn hm)).next fun ids _ =>
        .forM fun id _ => .lift (Play.upholds_grant hK id (hK.granted _ _ _ hadmits) ?_ ?_)
      · exact fun _ hn => Option.some.inj hn ▸ hid
      · rintro n ⟨⟩
  · rename_i text actions hactivated
    rw [hactivated] at hadmits
    obtain ⟨hactions, hinvokes⟩ := hK.activated _ _ _ _ hadmits
    exact upholds_onEachPiece htargets fun _ hp => hp.addActivation ⟨hid, hactions, hinvokes⟩

end Resolving

namespace Play

theorem upholds_reapplyOne (hK : K.Coherent) (owner : PieceId) (id : AbilityId) :
    Upholds K strict (fun _ => True) (reapplyOne owner id) := by
  refine (Upholds.piece? owner).next fun o ho => ?_
  split
  · exact .pure trivial
  · rename_i a hfound
    have ha : a.Abides K := by
      obtain ⟨p, hp, hpassive⟩ := Option.bind_eq_some_iff.1 hfound
      exact (ho p hp).passives a (List.mem_of_find?_eq_some hpassive)
    have hwrite : ∀ applied : Option Collection, (∀ c ∈ applied, c.Abides K) →
        Upholds K strict (fun _ => True) (change (·.changePiece owner
          (·.changePassive id (·.setApplied applied)))) := fun applied happlied =>
      .change fun _ hm => hm.changePiece owner fun _ hp => hp.setApplied id happlied
    refine (Upholds.change fun _ hm => hm.withdrawApplied a).next fun _ _ => ?_
    dsimp only
    split
    · exact hwrite none fun _ hc => nomatch hc
    · refine .look fun m _ => ?_
      have hctx : { Context.forPiece m owner with source := some id }.Abides K :=
        { Context.Abides.forPiece (K := K) m owner with }
      refine (Resolving.upholds_resolve a.targets (hK.fits _ ha.admits).1 _ hctx).next fun x hx => ?_
      refine ((Resolving.upholds_applyPassive hK ha hx.1).run' hx.2).next fun _ _ => ?_
      exact hwrite (some x.1) fun _ hc => Option.some.inj hc ▸ hx.1

theorem upholds_reapplyOf (hK : K.Coherent) (owner : PieceId) :
    Upholds K strict (fun _ => True) (reapplyOf owner) := by
  refine (Upholds.piece? owner).next fun o _ => ?_
  split
  · exact .pure trivial
  · exact .forM fun a _ => upholds_reapplyOne hK owner a.id

theorem upholds_reapply (hK : K.Coherent) : Upholds K strict (fun _ => True) reapply :=
  .look fun _ _ => (Upholds.forM fun id _ => upholds_reapplyOf hK id).next fun _ _ =>
    .change fun _ hm => hm.dropDisabled

theorem upholds_removePiece (hK : K.Coherent) (id : PieceId) :
    Upholds K strict (fun o => ∀ p ∈ o, p.Abides K) (removePiece id) := by
  refine (Upholds.piece? id).next fun o ho => ?_
  split
  · exact .pure fun _ hp => nomatch hp
  · rename_i p
    have hp : p.Abides K := ho p rfl
    refine (Upholds.change fun _ hm => hm.changeBoard (hm.board.erase id)).next fun _ _ => ?_
    refine (Upholds.change fun _ hm => hm.withdrawAll p.passives).next fun _ _ => ?_
    refine (upholds_reapply hK).next fun _ _ => ?_
    exact (Upholds.change fun _ hm => hm.checkVictory).next fun _ _ =>
      .pure fun _ hq => Option.some.inj hq ▸ hp

theorem upholds_returnToHand (hK : K.Coherent) (id : PieceId) :
    Upholds K strict (fun _ => True) (returnToHand id) := by
  refine (upholds_removePiece hK id).next fun o ho => ?_
  split
  · exact .pure trivial
  · rename_i p
    exact .change fun _ hm => hm.giveBack p.owner (ho p rfl).card.reset

theorem upholds_drawCards (hK : K.Coherent) (player : Color) (count : Nat) :
    Upholds K strict (fun _ => True) (drawCards player count) :=
  (Upholds.change fun _ hm => hm.deal player count).next fun _ _ => upholds_reapply hK

end Play

/-! ### What is called forth -/

/-- The runner carries out those actions that it copes with. -/
def Runner.Upholds (K : Creed) (strict : Bool) (copes : List Action → Prop) (run : Runner) : Prop :=
  ∀ (ctx : Context) (actions : List Action), ctx.Abides K → K.admits (.actions actions) →
    copes actions → Play.Upholds K strict (fun _ => True) (run ctx actions)

/-- What a trigger does in answer to such an event is coped with. -/
def Creed.Hears (K : Creed) (copes : List Action → Prop) (event : EventType) : Prop :=
  ∀ spec actions overrides, K.admits (.setTrigger ⟨spec, actions, overrides, none⟩) →
    spec.event = event → copes actions

/-! ### Events -/

structure Occurrence.Abides (K : Creed) (o : Occurrence) : Prop where
  card : ∀ c ∈ o.card, c.Abides K

namespace Occurrence.Abides

theorem ofPiece (event : EventType) (id : PieceId) : (Occurrence.ofPiece event id).Abides K :=
  ⟨fun _ h => nomatch h⟩

theorem ofPlayer (event : EventType) (player : Color) :
    (Occurrence.ofPlayer event player).Abides K := ⟨fun _ h => nomatch h⟩

theorem context {o : Occurrence} (h : o.Abides K) (owner : PieceId) (controller : Color)
    (t : Trigger) (interactive : Bool) : (o.context owner controller t interactive).Abides K where
  it := by
    refine Context.Abides.or (fun x hx => ?_) fun x hx => ?_
    · obtain ⟨_, _, rfl⟩ := Option.map_eq_some_iff.1 hx
      trivial
    · obtain ⟨c, hc, rfl⟩ := Option.map_eq_some_iff.1 hx
      exact h.card c hc
  that := by
    intro x hx
    obtain ⟨_, _, rfl⟩ := Option.map_eq_some_iff.1 hx
    trivial
  iteratee _ hx := nomatch hx
  duration _ hn := nomatch hn

end Occurrence.Abides

namespace Play

theorem upholds_hears (hK : K.Coherent) (o : Occurrence) (owner : PieceId) {t : Trigger}
    (ht : t.Abides K) : Upholds K strict (fun _ => True) (hears o owner t) := by
  unfold hears
  split
  · exact .look fun m _ => ((Resolving.upholds_resolve _ (hK.fits _ ht.admits).1).run'
      (.forPiece m owner)).next fun _ _ => .pure trivial
  · exact .pure trivial

/-- An answer to such an event, by a trigger of the creed. -/
def Answers (K : Creed) (event : EventType) (a : Answer) : Prop :=
  a.trigger.Abides K ∧ a.trigger.spec.event = event

theorem upholds_answersAmong (hK : K.Coherent) (o : Occurrence) (owner : PieceId)
    (controller : Color) {ts : List Trigger} (hts : ∀ t ∈ ts, t.Abides K ∧ t.spec.event = o.event) :
    Upholds K strict (fun answers => ∀ a ∈ answers, Answers K o.event a)
      (answersAmong o owner controller ts) := by
  induction ts with
  | nil => exact .pure fun _ ha => nomatch ha
  | cons t ts ih =>
    obtain ⟨hfirst, hrest⟩ := List.forall_mem_cons.1 hts
    refine (upholds_hears hK o owner hfirst.1).next fun heard _ => ?_
    refine (ih hrest).next fun rest hanswers => .pure ?_
    split
    · exact List.forall_mem_cons.2 ⟨hfirst, hanswers⟩
    · exact hanswers

theorem upholds_answersOf (hK : K.Coherent) (o : Occurrence) (ids : List PieceId) :
    Upholds K strict (fun answers => ∀ a ∈ answers, Answers K o.event a) (answersOf o ids) := by
  induction ids with
  | nil => exact .pure fun _ ha => nomatch ha
  | cons id ids ih =>
    have hrest : ∀ found : List Answer, (∀ a ∈ found, Answers K o.event a) →
        Upholds K strict (fun answers => ∀ a ∈ answers, Answers K o.event a)
          (do return found ++ (← answersOf o ids)) := fun found hfound =>
      ih.next fun _ hanswers => .pure (List.forall_mem_append.2 ⟨hfound, hanswers⟩)
    refine (Upholds.piece? id).next fun p hp => ?_
    split
    · exact hrest [] fun _ ha => nomatch ha
    · rename_i p
      refine (upholds_answersAmong hK o id p.owner fun t ht => ?_).next hrest
      obtain ⟨hmem, hasks⟩ := List.mem_filter.1 ht
      exact ⟨(hp p rfl).triggers t hmem, by simpa using (Bool.and_eq_true_iff.1 hasks).2⟩

section Running

variable {run : Runner} {copes : List Action → Prop} (hK : K.Coherent)
  (hrun : run.Upholds K strict copes)

include hK hrun

theorem upholds_occur {o : Occurrence} (ho : o.Abides K) (hheard : K.Hears copes o.event)
    (parent : Context) {byDefault : Play Unit}
    (hdefault : Upholds K strict (fun _ => True) byDefault) :
    Upholds K strict (fun _ => True) (occur run o parent byDefault) := by
  have hanswers : ∀ answers : List Answer, (∀ a ∈ answers, Answers K o.event a) →
      Upholds K strict (fun _ => True) (answers.forM fun a =>
        run (o.context a.owner a.controller a.trigger parent.interactive) a.trigger.actions) :=
    fun answers hall => .forM fun a ha => hrun _ _ (ho.context _ _ _ _)
      (hK.reaction _ _ _ _ (hall a ha).1.admits) (hheard _ _ _ (hall a ha).1.admits (hall a ha).2)
  refine .look fun m _ => ?_
  refine (upholds_answersOf hK o _).next fun answers hall => ?_
  split
  · exact hdefault.next fun _ _ => hanswers answers hall
  · exact hanswers answers hall

theorem upholds_announce {o : Occurrence} (ho : o.Abides K) (hheard : K.Hears copes o.event)
    (ctx : Context) : Upholds K strict (fun _ => True) (occur run o ctx (pure ())) :=
  upholds_occur hK hrun ho hheard ctx (.pure trivial)

theorem upholds_endTurn (hheard : K.Hears copes .endOfTurn) :
    Upholds K strict (fun _ => True) (endTurn run) := by
  refine .look fun m _ => ?_
  refine Upholds.next (P := fun _ => True) ?_ fun _ _ => ?_
  · refine (Upholds.change fun _ hm => hm.setSelection m.turn Selection.fits_none).next fun _ _ => ?_
    exact (Upholds.change fun _ hm => hm.setStatus m.turn "").next fun _ _ => .note _
  refine (Upholds.change fun _ hm => hm.mapPieces fun _ hp => hp.endTurnOf m.turn).next fun _ _ => ?_
  refine (Upholds.change fun _ hm => hm.tickDurations).next fun _ _ => ?_
  refine (upholds_announce hK hrun (.ofPlayer _ _) hheard .empty).next fun _ _ => ?_
  exact (Upholds.change fun _ hm => hm.checkVictory).next fun _ _ => .change fun _ hm => { hm with }

theorem upholds_startTurn (hheard : K.Hears copes .beginningOfTurn) :
    Upholds K strict (fun _ => True) (startTurn run) := by
  refine .changeIf (fun h => nomatch h) (fun _ hm hlt => { hm with turnNumber := hlt })
    fun m hm => ?_
  refine (Upholds.lift (Outcome.meets_int32 _)).next fun total htotal => ?_
  have hleast : Fits32 (min total m.limits.maxEnergy) := by
    have hmost := hm.limits.maxEnergy
    rw [fits32_iff] at *
    omega
  refine (Upholds.change fun _ hm' => hm'.changeSeat m.turn fun hs =>
    { hs with energy := ⟨hleast, hleast⟩ }).next fun _ _ => ?_
  refine (Upholds.change fun _ hm' => hm'.mapPieces fun _ hp =>
    hp.beginTurnOf m.turn).next fun _ _ => ?_
  refine (Upholds.note _).next fun _ _ => ?_
  refine (upholds_drawCards hK m.turn 1).next fun _ _ => ?_
  refine (upholds_announce hK hrun (.ofPlayer _ _) hheard .empty).next fun _ _ => ?_
  exact .change fun _ hm' => hm'.chime m.turn

theorem upholds_passTurn (hend : K.Hears copes .endOfTurn)
    (hbegin : K.Hears copes .beginningOfTurn) :
    Upholds K strict (fun _ => True) (passTurn run) := by
  refine (upholds_endTurn hK hrun hend).next fun _ _ => .look fun m _ => ?_
  split
  · exact upholds_startTurn hK hrun hbegin
  · exact .pure trivial

end Running
end Play
end HexDuel
