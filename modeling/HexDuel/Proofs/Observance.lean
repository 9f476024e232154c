import HexDuel.Proofs.Holdings
import HexDuel.Proofs.UpholdingCommands

/-!
A creed through a whole match. A match that is set up by it abides by it, and so it does after every
command whose data fits, whatever becomes of the command.
-/

set_option autoImplicit false

namespace HexDuel

variable {K : Creed} {strict : Bool}

/-! ### Setups -/

namespace MatchSetup
variable {s : MatchSetup}

theorem abides_ownedBy (owner : Color) {deck : List Card} (h : ∀ c ∈ deck, c.Abides K) :
    ∀ c ∈ ownedBy owner deck, c.Abides K :=
  List.forall_mem_map.2 fun c hc => { h c hc with }

theorem abides_shuffledDecks (hdecks : ∀ c, ∀ card ∈ s.decks.get c, card.Abides K) (g : Generator)
    (c : Color) : ∀ card ∈ (s.shuffledDecks g).1.get c, card.Abides K := by
  have hblue := abides_ownedBy .blue (hdecks .blue)
  have horange := abides_ownedBy .orange (hdecks .orange)
  have hboth := List.forall_mem_append.2 ⟨hblue, horange⟩
  intro card hcard
  unfold shuffledDecks at hcard
  cases hformat : s.format with
  | normal =>
    rw [hformat] at hcard
    cases c with
    | blue => exact hblue card ((Generator.shuffle_perm _ _).subset hcard)
    | orange => exact horange card ((Generator.shuffle_perm _ _).subset hcard)
  | sharedDeck =>
    rw [hformat] at hcard
    cases c <;> exact hboth card ((Generator.shuffle_perm _ _).subset hcard)

theorem seed_shuffledDecks (s : MatchSetup) (g : Generator) :
    (s.shuffledDecks g).2.seed = g.seed := by
  have hshuffle : ∀ (n : Nat) (xs : List Card) (g : Generator),
      (Generator.shuffleFrom n xs g).2.seed = g.seed := by
    intro n
    induction n with
    | zero => exact fun _ _ => rfl
    | succ n ih => exact fun _ _ => (ih _ _).trans (Generator.seed_draw _ _)
  unfold shuffledDecks
  cases s.format with
  | normal => exact (hshuffle _ _ _).trans (hshuffle _ _ _)
  | sharedDeck => exact hshuffle _ _ _

theorem abides_core {health : Int} (h : Fits32 health) (owner : Color) {id : PieceId}
    (hid : FitsId id) : (core owner id health).Abides K := by
  have hcard : (coreCard owner health).Abides K := {
    baseCost := fits32_zero
    cost := fits32_zero
    stats := fun _ hs => Option.some.inj hs ▸ Stats.fits_still h
    sentences := fun _ hs => nomatch hs
    enters := fun _ hs => nomatch hs
    costAdjustments := fun _ ha => nomatch ha }
  have hhex : owner.coreHex.Fits :=
    Hex.fits_of_onBoard (by cases owner <;> decide) (by cases owner <;> rfl)
  exact .new hid hcard rfl hhex owner

namespace Abides
variable (h : s.Abides K)
include h

theorem tableOf : s.tableOf.Abides K := by
  have hseat : ∀ c, (s.tableOf.seat c).Abides K := by
    intro c
    have hdeck := abides_shuffledDecks h.decks (.ofSeed (s.seed.getD 0)) c
    have hnone : ∀ card ∈ ([] : List Card), card.Abides K := fun _ hc => nomatch hc
    cases c <;> exact ⟨hnone, hdeck, hnone, ⟨fits32_zero, fits32_zero⟩, Selection.fits_none⟩
  have hone : FitsId 1 := (by decide : 1 < Width.end64)
  have htwo : FitsId 2 := (by decide : 2 < Width.end64)
  exact {
    seats := hseat
    limits := h.limits
    board := {
      ascending := (by decide : [1, 2].Pairwise (· < ·))
      entries := List.forall_mem_cons.2 ⟨⟨hone, abides_core h.limits.coreHealth .blue hone⟩,
        List.forall_mem_singleton.2 ⟨htwo, abides_core h.limits.coreHealth .orange htwo⟩⟩ }
    seed := by
      have hseed : s.tableOf.random.seed = s.seed.getD 0 := seed_shuffledDecks s _
      rw [hseed]
      cases hs : s.seed with
      | none => decide
      | some n => exact h.seed n hs
    lastId := htwo
    turnNumber := (by decide : 1 < Width.end32)
    log := fun _ he => nomatch he
    animations := fun _ ha => nomatch ha
    pending := fun _ hp => nomatch hp
    refusal := fun _ hr => nomatch hr }

theorem start {m : Match} (hm : s.start = .ok m) : m.Abides K := by
  have hone : Fits32 1 := ⟨by decide, by decide⟩
  rw [start_eq hm]
  exact (Match.Abides.foldl (fun c _ _ hm' => hm'.drawTimes c _) h.tableOf).changeSeat .blue
    fun hs => { hs with energy := ⟨hone, hone⟩ }

end Abides
end MatchSetup

/-! ### Commands -/

/-- A match that abides by the creed, or an allowed failure. -/
def Outcome.Leaves (K : Creed) (strict : Bool) : Outcome (Match × List Happening) → Prop
  | .ok x => x.1.Abides K
  | .error f => f.Allowed strict

namespace Match.Abides
variable {m : Match} (h : m.Abides K) (player : Color)

include h

theorem reject {r : Rejection} (hr : r.Fits) : (m.reject player r).Abides K :=
  (h.setStatus player _).refuse hr

theorem release : (m.release player).Abides K :=
  { (h.setSelection player Selection.fits_none).setStatus player "" with
    pending := fun _ hp => nomatch hp }

theorem abandon {r : Rejection} (hr : r.Fits) : (m.abandon player r).Abides K := by
  unfold Match.abandon
  split
  · exact h.reject player hr
  · exact (h.release player).reject player hr

theorem suspend {resumption : Resumption} (hresumption : resumption.Fits) {offered : Selection}
    (hoffered : offered.Fits) {chosen : List Choice} (hchosen : ∀ c ∈ chosen, c.Fits) :
    (m.suspend player resumption offered chosen).Abides K := by
  have hselection : { offered with chosen := chosen }.Fits := { hoffered with chosen := hchosen }
  exact { (h.setSelection player hselection).setStatus player "Choose a target" with
    pending := fun _ hp => Option.some.inj hp ▸ hresumption }

section Running

variable {depth : Nat} {copes : List Action → Prop} (hK : K.Coherent) (hwithin : K.Within copes)
  (hrun : (Play.runner depth).Upholds K strict copes)

include hK hwithin hrun

theorem leaves_attempt {resumption : Resumption} (hresumption : resumption.Fits)
    {chosen : List Choice} (hchosen : ∀ c ∈ chosen, c.Fits) :
    Outcome.Leaves K strict (m.attempt depth player resumption chosen) := by
  have hperform := Attempt.upholds_perform hK hwithin hrun player hresumption
    (m.scratch player chosen) (h.setSelection player (Selection.fits_answering hchosen))
  unfold attempt
  cases hx : (Attempt.perform (Play.runner depth) player resumption).run.run
      (m.scratch player chosen) with
  | error f =>
    rw [hx] at hperform
    simp only [hx, bind, Except.bind]
    exact hperform
  | ok x =>
    obtain ⟨result, st⟩ := x
    rw [hx] at hperform
    obtain ⟨hst, hresult⟩ := hperform
    simp only [hx, bind, Except.bind]
    cases result with
    | error r => exact h.abandon player hresult
    | ok =>
      cases hrefusal : st.game.refusal with
      | some r => exact h.abandon player (hst.refusal r hrefusal)
      | none =>
        dsimp only
        split
        · exact h.suspend player hresumption (hst.seats player).selection hchosen
        · have hsettle := Play.upholds_settle hK hrun (hwithin.hears _) st hst
          cases hy : (Play.settle (Play.runner depth)).run st with
          | error f =>
            rw [hy] at hsettle
            exact hsettle
          | ok y =>
            rw [hy] at hsettle
            exact hsettle.1.release player

omit player in
theorem leaves_endOfTurn : Outcome.Leaves K strict (m.endOfTurn depth) := by
  have hturn : Play.Upholds K strict (fun _ => True) (do
      Play.passTurn (Play.runner depth)
      Play.settle (Play.runner depth)) :=
    (Play.upholds_passTurn hK hrun (hwithin.hears _) (hwithin.hears _)).next fun _ _ =>
      Play.upholds_settle hK hrun (hwithin.hears _)
  have hm := hturn ⟨m, []⟩ h
  unfold endOfTurn
  dsimp only
  generalize (do
    Play.passTurn (Play.runner depth)
    Play.settle (Play.runner depth) : Play Unit).run ⟨m, []⟩ = x at hm ⊢
  cases x with
  | error f => exact hm
  | ok x => exact hm.1

omit player in
theorem leaves_submitTraced {c : Command} (hc : c.Fits) :
    Outcome.Leaves K strict (m.submitTraced depth c) := by
  have hheard : m.heard.Abides K := { h with refusal := fun _ hr => nomatch hr }
  have hreject : ∀ r : Rejection, r.Fits →
      Outcome.Leaves K strict (.ok (m.heard.reject c.player r, [])) := fun _ hr =>
    hheard.reject c.player hr
  have hfresh : ∀ choice ∈ ([] : List Choice), choice.Fits := fun _ hmem => nomatch hmem
  unfold submitTraced
  dsimp only
  split
  · exact hreject .gameOver trivial
  · split
    · rename_i player target
      split
      · exact hreject .nothingToChoose trivial
      · rename_i prompt hprompt
        have hchosen := (hheard.seats player).selection.chosen
        split
        · exact hreject .notYourTurn trivial
        · split
          · exact hreject .illegalTarget trivial
          · exact hheard.leaves_attempt player hK hwithin hrun (hheard.pending prompt hprompt)
              (List.forall_mem_append.2 ⟨hchosen, List.forall_mem_singleton.2 hc⟩)
    · split
      · exact hreject .selectionPending trivial
      · split
        · exact hreject .notYourTurn trivial
        · split
          · rename_i resumption hresumption
            refine hheard.leaves_attempt _ hK hwithin hrun ?_ hfresh
            cases c with
            | chooseTarget | passTurn => cases hresumption
            | _ =>
              cases hresumption
              exact hc
          · exact hheard.leaves_endOfTurn hK hwithin hrun

end Running
end Match.Abides

/-! ### Matches -/

/-- Where a failure may be one of depth, everything is coped with. -/
theorem Creed.bears_true (K : Creed) (x : Consequence) : K.Bears (fun _ => True) x := by
  cases x with
  | event => exact fun _ _ _ _ _ => trivial
  | entry => exact fun _ _ _ _ => trivial
  | acts => trivial

theorem Creed.within_true (K : Creed) : K.Within fun _ => True where
  hears _ _ _ _ _ _ := trivial
  places _ _ _ _ := trivial
  events _ _ x _ := K.bears_true x
  invokes _ _ x _ := K.bears_true x

theorem Play.upholds_runner (hK : K.Coherent) (depth : Nat) :
    (runner depth).Upholds K false fun _ => True := by
  induction depth with
  | zero => exact fun _ _ _ _ _ _ _ hstrict => nomatch hstrict
  | succ depth ih =>
    exact fun ctx actions hctx hadmits _ =>
      ih.deeper hK ctx actions hctx hadmits fun x _ => K.bears_true x

namespace Match

/-- Set up by the creed, and come this far by commands whose data fits. -/
inductive OfCreed (K : Creed) : Match → Prop where
  | start {s : MatchSetup} {m : Match} : s.Abides K → s.start = .ok m → OfCreed K m
  | next {depth : Nat} {m m' : Match} {c : Command} {trace : List Happening} : OfCreed K m →
    c.Fits → m.submitTraced depth c = .ok (m', trace) → OfCreed K m'

theorem OfCreed.abides {m : Match} (hK : K.Coherent) (h : m.OfCreed K) : m.Abides K := by
  induction h with
  | start hs hstart => exact hs.start hstart
  | @next depth m m' c trace _ hc hsubmit ih =>
    have hleaves := ih.leaves_submitTraced hK K.within_true (Play.upholds_runner hK depth) hc
    rw [hsubmit] at hleaves
    exact hleaves

theorem OfCreed.submit {m m' : Match} {c : Command} (hm : m.OfCreed K) (hc : c.Fits)
    (h : m.submit c = .ok m') : m'.OfCreed K := by
  unfold Match.submit at h
  cases hs : m.submitTraced maxDepth c with
  | error f =>
    rw [hs] at h
    cases h
  | ok x =>
    rw [hs] at h
    cases h
    exact hm.next hc hs

end Match

theorem Limits.fits_standard : Limits.standard.Fits :=
  ⟨by decide, by decide, ⟨by decide, by decide⟩, ⟨by decide, by decide⟩⟩

theorem MatchSetup.abides_solo {actions : List Action} (hadmits : K.admits (.actions actions))
    (henters : K.enters .event actions) : (solo actions).Abides K where
  decks := by
    intro c card hcard
    cases c with
    | blue =>
      obtain rfl := List.mem_singleton.1 hcard
      exact {
        baseCost := fits32_zero
        cost := fits32_zero
        stats := fun _ hs => nomatch hs
        sentences := List.forall_mem_singleton.2 hadmits
        enters := fun as has => by
          obtain rfl := Sentence.actions.inj (List.mem_singleton.1 has)
          exact henters
        costAdjustments := fun _ ha => nomatch ha }
    | orange => cases hcard
  limits := Limits.fits_standard
  seed := fun _ hn => nomatch hn

end HexDuel
