import HexDuel.Proofs.UpholdingEffects

/-!
Commands uphold a creed where the runner copes with all that commands call forth, and so does a match
that was set up by it through every command that it is given.
-/

set_option autoImplicit false

namespace HexDuel

open Outcome (Meets)

variable {K : Creed} {strict : Bool}

/-- Whatever commands call forth is coped with. -/
structure Creed.Within (K : Creed) (copes : List Action → Prop) : Prop where
  hears : ∀ event, K.Hears copes event
  places : K.Places copes
  events : ∀ actions, K.enters .event actions → ∀ x ∈ consequencesOf actions, K.Bears copes x
  invokes : ∀ actions, K.invokes actions → ∀ x ∈ consequencesOf actions, K.Bears copes x

namespace Attempt
variable {α β : Type} {P : α → Prop} {Q : β → Prop}

/-- A value of that kind, or a reason that fits. -/
def Finds (P : α → Prop) : Except Rejection α → Prop
  | .ok a => P a
  | .error r => r.Fits

def Upholds (K : Creed) (strict : Bool) (P : α → Prop) (a : Attempt α) : Prop :=
  Play.Upholds K strict (Finds P) a.run

namespace Upholds

theorem lift {p : Play α} (h : Play.Upholds K strict P p) :
    Upholds K strict P (liftM p : Attempt α) :=
  Play.Upholds.next (k := fun a => Pure.pure (Except.ok a)) h fun _ ha => .pure ha

theorem pure {a : α} (h : P a) : Upholds K strict P (Pure.pure a) := Play.Upholds.pure h

theorem fault {f : Fault} (h : f ≠ .exhausted) :
    Upholds K strict P (throwThe Fault f : Attempt α) := lift (.fail h)

theorem refuse {r : Rejection} (h : r.Fits) : Upholds K strict P (refuse r : Attempt α) :=
  Play.Upholds.pure h

theorem outcome {x : Outcome α} (h : Meets P x) :
    Upholds K strict P (liftM (liftM x : Play α) : Attempt α) := lift (.lift h)

theorem next {a : Attempt α} {k : α → Attempt β} (ha : Upholds K strict P a)
    (hk : ∀ x, P x → Upholds K strict Q (k x)) : Upholds K strict Q (a >>= k) := by
  unfold Upholds
  rw [ExceptT.run_bind]
  refine Play.Upholds.next ha fun x hx => ?_
  cases x with
  | ok x => exact hk x hx
  | error r => exact .pure hx

theorem look {k : Match → Attempt α} (h : ∀ m : Match, m.Abides K → Upholds K strict P (k m)) :
    Upholds K strict P (game >>= k) := fun s hs => h s.game hs s hs

theorem change {f : Match → Match} (h : ∀ m : Match, m.Abides K → (f m).Abides K) :
    Upholds K strict (fun _ => True) (Attempt.change f) := lift (.change h)

end Upholds

theorem upholds_ownPieceAt (player : Color) {hex : Hex} (h : hex.Fits) :
    Upholds K strict (fun _ => True) (ownPieceAt player hex) := by
  refine .look fun m _ => ?_
  split
  · split
    · exact .pure trivial
    · exact .refuse h
  · exact .refuse h

theorem upholds_pay (player : Color) (cost : Int) :
    Upholds K strict (fun _ => True) (pay player cost) :=
  .look fun _ _ => (Upholds.outcome (Outcome.meets_int32 _)).next fun _ havailable =>
    .change fun _ hm => hm.changeSeat player (·.setAvailable havailable)

section Running

variable {run : Runner} {copes : List Action → Prop} (hK : K.Coherent) (hwithin : K.Within copes)
  (hrun : run.Upholds K strict copes)

include hK hwithin hrun

theorem upholds_occur {o : Occurrence} (ho : o.Abides K) (ctx : Context) {byDefault : Play Unit}
    (hdefault : Play.Upholds K strict (fun _ => True) byDefault) :
    Upholds K strict (fun _ => True) (liftM (Play.occur run o ctx byDefault)) :=
  .lift (Play.upholds_occur hK hrun ho (hwithin.hears _) ctx hdefault)

/-! ### Cards -/

theorem upholds_resolveEvent (card : Card) {sentences : List Sentence}
    (h : ∀ s ∈ sentences, K.admits s)
    (henters : ∀ actions, .actions actions ∈ sentences → K.enters .event actions) :
    Resolving.Upholds K strict (fun _ => True) (resolveEvent run card sentences) := by
  induction sentences with
  | nil => exact .pure trivial
  | cons s rest ih =>
    obtain ⟨hfirst, hrest⟩ := List.forall_mem_cons.1 h
    cases s with
    | actions actions =>
      have hbears := hwithin.events _ (henters actions List.mem_cons_self)
      exact (Resolving.upholds_executeAll hK hrun actions hfirst hbears).next fun _ _ =>
        ih hrest fun as has => henters as (List.mem_cons_of_mem _ has)
    | _ => exact .fail fun heq => nomatch heq

theorem upholds_playEvent (player : Color) {card : Card} (hcard : card.Abides K)
    (htype : card.type = .event) (cost : Int) :
    Upholds K strict (fun _ => True) (playEvent run player card cost) := by
  have hplayed : ((Occurrence.ofPlayer .afterCardPlay player).withCard card).Abides K :=
    ⟨fun _ h => Option.some.inj h ▸ hcard⟩
  have hresolving : ∀ (resolving : Bool) (m : Match), m.Abides K →
      { m with eventResolving := resolving }.Abides K := fun _ _ hm => { hm with }
  refine (Upholds.change (hresolving true)).next fun _ _ => ?_
  refine (upholds_pay player cost).next fun _ _ => ?_
  refine (Upholds.change fun _ hm => hm.playSound _).next fun _ _ => ?_
  refine (Upholds.change fun _ hm => hm.addLog _ _
    (List.forall_mem_singleton.2 hcard)).next fun _ _ => ?_
  refine (Upholds.lift (upholds_resolveEvent hK hwithin hrun card hcard.sentences
    (htype ▸ hcard.enters) _ (.command player))).next fun x _ => ?_
  refine .look fun m hm => ?_
  have hrest : Upholds K strict (fun _ => True) (do
      change fun m => { m with eventResolving := false }
      Play.occur run ((Occurrence.ofPlayer .afterCardPlay player).withCard card) x.2
        (Pure.pure ())) :=
    (Upholds.change (hresolving false)).next fun _ _ =>
      upholds_occur hK hwithin hrun hplayed _ (.pure trivial)
  dsimp only
  split
  · rename_i held hheld
    have hreset := ((hm.seats player).cardInHand? hheld).reset
    exact (Upholds.change fun _ hm' => hm'.dropFromHand player card.id).next fun _ _ =>
      (Upholds.change fun _ hm' => hm'.discard player hreset).next fun _ _ => hrest
  · exact hrest

theorem upholds_playPiece (player : Color) (card : Card) (cost : Int) {hex : Hex} (hhex : hex.Fits) :
    Upholds K strict (fun _ => True) (playPiece run player card cost hex) := by
  refine .look fun m _ => ?_
  split
  · exact .refuse hhex
  · refine (upholds_pay player cost).next fun _ _ => .look fun m hm => ?_
    split
    · exact .refuse trivial
    · rename_i held hfound
      have hheld : held.Abides K := (hm.seats player).cardInHand? hfound
      have hplayed : ((Occurrence.ofPlayer .afterCardPlay player).withCard held).Abides K :=
        ⟨fun _ h => Option.some.inj h ▸ hheld⟩
      refine (Upholds.change fun _ hm' => hm'.dropFromHand player held.id).next fun _ _ => ?_
      refine (Upholds.lift (Play.upholds_placeCard hK hrun (.command player) hwithin.places
        (hwithin.hears _) hheld hhex player true)).next fun placed _ => ?_
      split
      · exact .refuse hhex
      · rename_i id
        refine (Upholds.change fun _ hm' => hm'.addLog _ _
          (List.forall_mem_singleton.2 hheld)).next fun _ _ => ?_
        refine (upholds_occur hK hwithin hrun hplayed _ (.pure trivial)).next fun _ _ => ?_
        exact .change fun _ hm' => hm'.changePiece id fun _ hp => hp.arrive

theorem upholds_playCard (player : Color) (id : CardId) {hex : Option Hex}
    (hhex : ∀ x ∈ hex, x.Fits) :
    Upholds K strict (fun _ => True) (playCard run player id hex) := by
  refine .look fun m hm => ?_
  dsimp only
  split
  · exact .refuse trivial
  · rename_i card hfound
    have hcard : card.Abides K := (hm.seats player).cardInHand? hfound
    refine (Upholds.outcome hcard.meets_effectiveCost).next fun cost hcost => ?_
    split
    · exact .refuse ⟨hcost, (hm.seats player).energy.available⟩
    · split
      · rename_i htype
        exact upholds_playEvent hK hwithin hrun player hcard htype cost
      · exact .fault fun heq => nomatch heq
      · rename_i x _ _
        exact upholds_playPiece hK hwithin hrun player card cost (hhex x rfl)
      · exact .fault fun heq => nomatch heq

/-! ### Objects -/

omit hK hwithin hrun in
theorem upholds_walk (id : PieceId) (start goal : Hex) :
    Play.Upholds K strict (fun _ => True) (walk id start goal) := by
  refine .look fun m hm => ?_
  refine (Play.Upholds.lift (hm.meets_movementHexes start)).next fun hexes hhexes => ?_
  split
  · rename_i hgoal
    have hfits : goal.Fits := hhexes goal (by simpa using hgoal)
    split
    · exact .pure trivial
    · refine (Play.Upholds.lift (Outcome.meets_int32 _)).next fun made hmade => ?_
      exact (Play.Upholds.change fun _ hm' => hm'.changePiece id fun _ hp =>
        hp.walk hmade hfits).next fun _ _ => .pure trivial
  · exact .pure trivial

theorem upholds_movePiece (player : Color) {start goal : Hex} (hstart : start.Fits)
    (hgoal : goal.Fits) : Upholds K strict (fun _ => True) (movePiece run player start goal) := by
  refine (upholds_ownPieceAt player hstart).next fun p _ => ?_
  refine (Upholds.lift (upholds_walk p.id start goal)).next fun moved _ => ?_
  split
  · have hshown : (Animation.move start goal).Fits := ⟨hstart, hgoal⟩
    refine (Upholds.change fun _ hm => hm.animate hshown).next fun _ _ => ?_
    refine (Upholds.change fun _ hm => hm.playSound _).next fun _ _ => ?_
    exact upholds_occur hK hwithin hrun (.ofPiece _ _) _ (.pure trivial)
  · exact .refuse hgoal

theorem upholds_combat (attacker defender : PieceId) (ctx : Context) :
    Play.Upholds K strict (fun _ => True) (combat run attacker defender ctx) := by
  have hblow : ∀ (id : PieceId) (amount : Int), Play.Upholds K strict (fun _ => True)
      (Play.dealDamage run id amount (some .combat) ctx) := fun id amount =>
    Play.upholds_dealDamage hK hrun (hwithin.hears _) (hwithin.hears _) id amount _ ctx
  refine (Play.Upholds.piece? attacker).next fun o ho => ?_
  split
  · exact .pure trivial
  · rename_i a
    refine (Play.Upholds.lift ((ho a rfl).meets_value .attack)).next fun attack _ => ?_
    refine (Play.Upholds.piece? defender).next fun d hd => ?_
    have hblows : ∀ retaliation : Int, Play.Upholds K strict (fun _ => True) (do
        Play.dealDamage run defender attack (some .combat) ctx
        if 0 < retaliation && (← Play.game).board.contains attacker then
          Play.dealDamage run attacker retaliation (some .combat) ctx) := by
      intro retaliation
      refine (hblow defender attack).next fun _ _ => .look fun m _ => ?_
      split
      · exact hblow attacker retaliation
      · exact .pure trivial
    cases d with
    | none => exact hblows 0
    | some d =>
      have hnote : Play.Upholds K strict (fun _ => True) (Play.note (.combat a d)) := .note _
      dsimp only
      split
      · exact hnote.next fun _ _ => hblows 0
      · exact (Play.Upholds.lift ((hd d rfl).meets_value .attack)).next fun retaliation _ =>
          hnote.next fun _ _ => hblows retaliation

theorem upholds_strike (player : Color) (attacker defender : PieceId) {stand target : Hex}
    (hstand : stand.Fits) (htarget : target.Fits) :
    Upholds K strict (fun _ => True) (strike run player attacker defender stand target) := by
  refine .look fun m hm => ?_
  split
  · exact .pure trivial
  · rename_i a ha
    refine (Upholds.change fun _ hm' => hm'.changePiece attacker fun _ hp =>
      hp.struck).next fun _ _ => .look fun m' hm' => ?_
    split
    · exact .pure trivial
    · rename_i d hd
      have hcards : ∀ c ∈ [a.card, d.card], c.Abides K := List.forall_mem_cons.2
        ⟨(hm.board.get? ha).2.card, List.forall_mem_singleton.2 (hm'.board.get? hd).2.card⟩
      have hstruck : ((Occurrence.ofPiece .afterAttack attacker).withUndergoer defender
          d.type).Abides K := ⟨fun _ h => nomatch h⟩
      have hshown : (Animation.attack stand target).Fits := ⟨hstand, htarget⟩
      refine (Upholds.change fun _ hm => hm.animate hshown).next fun _ _ => ?_
      refine (Upholds.change fun _ hm => hm.playSound _).next fun _ _ => ?_
      refine (Upholds.change fun _ hm => hm.addLog _ _ hcards).next fun _ _ => ?_
      exact upholds_occur hK hwithin hrun hstruck _
        (upholds_combat hK hwithin hrun attacker defender _)

theorem upholds_attackPiece (player : Color) {start target : Hex} (hstart : start.Fits)
    (htarget : target.Fits) :
    Upholds K strict (fun _ => True) (attackPiece run player start target) := by
  refine (upholds_ownPieceAt player hstart).next fun a _ => .look fun m hm => ?_
  refine (Upholds.outcome (hm.meets_attackHexes start)).next fun hexes _ => ?_
  split
  · exact .refuse htarget
  · split
    · exact .refuse htarget
    · rename_i defender _
      refine (Upholds.outcome (hm.meets_stepBeforeAttack start target)).next fun step hstep => ?_
      split
      · exact upholds_strike hK hwithin hrun player a.id defender hstart htarget
      · rename_i x
        have hx : x.Fits := hstep x rfl
        exact (upholds_movePiece hK hwithin hrun player hstart hx).next fun _ _ =>
          upholds_strike hK hwithin hrun player a.id defender hx htarget

theorem upholds_activateAbility (player : Color) {hex : Hex} (hhex : hex.Fits) (index : Nat) :
    Upholds K strict (fun _ => True) (activateAbility run player hex index) := by
  refine (upholds_ownPieceAt player hhex).next fun own _ => .look fun m hm => ?_
  split
  · exact .refuse hhex
  · rename_i p hget
    have hp : p.Abides K := (hm.board.get? hget).2
    split
    · exact .refuse trivial
    · split
      · exact .refuse trivial
      · rename_i activation hat
        have hactivation := hp.activations activation (List.mem_of_getElem? hat)
        have hacts := Resolving.upholds_executeAll hK hrun activation.actions hactivation.admits
          (hwithin.invokes _ hactivation.invokes)
        refine (Upholds.change fun _ hm' => hm'.addLog _ _
          (List.forall_mem_singleton.2 hp.card)).next fun _ _ => ?_
        have hspeaks : { Context.command player with
            current := some own.id, source := some activation.ability }.Abides K :=
          { Context.Abides.command player with }
        refine (Upholds.lift (hacts.run' hspeaks)).next fun _ _ => ?_
        exact .change fun _ hm' => hm'.changePiece own.id fun _ hq => hq.spent

theorem upholds_perform (player : Color) {resumption : Resumption} (h : resumption.Fits) :
    Upholds K strict (fun _ => True) (perform run player resumption) := by
  cases resumption with
  | playCard card hex => exact upholds_playCard hK hwithin hrun player card h
  | movePiece start goal => exact upholds_movePiece hK hwithin hrun player h.1 h.2
  | attackPiece start target => exact upholds_attackPiece hK hwithin hrun player h.1 h.2
  | activateAbility hex index => exact upholds_activateAbility hK hwithin hrun player h.1 index

end Running
end Attempt

end HexDuel
