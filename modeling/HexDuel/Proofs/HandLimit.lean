import HexDuel.Proofs.Bounds

/-!
The limit of the hands. While an event is resolved every hand takes one card more, since the event
keeps its place: but it has such a place in one hand only, and no longer when it has left that hand
before its end. So a hand can come to hold one card too many. It does so in no other way, however
cards are drawn, given back and dealt at the turn of a player.
-/

set_option autoImplicit false

namespace HexDuel

namespace Match
variable {m m' : Match} {depth : Nat} {c : Command} {trace : List Happening} {id : CardId}
  {resolved : Stage}

/-- In the course of the command the event with that id is resolved, up to that stage. -/
inductive Resolves (depth : Nat) (m : Match) (c : Command) (id : CardId) (resolved : Stage) :
    Prop where
  | event {hex : Option Hex} {chosen : List Choice} : m.heard.Calls c (.playCard id hex) chosen →
    Attempt.Resolves (Play.runner depth) c.player id (m.heard.scratch c.player chosen) resolved →
    Resolves depth m c id resolved

/-- When an event has been resolved, the player has too many cards in hand besides it. -/
def Overfills (depth : Nat) (m : Match) (c : Command) (d : Color) : Prop :=
  ∃ id resolved, m.Resolves depth c id resolved ∧
    m.limits.maxHandSize < ((resolved.game.dropFromHand c.player id).seat d).hand.length

/-- In the course of a command one event is resolved at most, and in one way. -/
theorem Resolves.unique {id' : CardId} {resolved' : Stage} (h : m.Resolves depth c id resolved)
    (h' : m.Resolves depth c id' resolved') : id' = id ∧ resolved' = resolved := by
  obtain ⟨hcalls, hcan, -, hpay, hannounced⟩ := h
  obtain ⟨hcalls', hcan', -, hpay', hannounced'⟩ := h'
  obtain ⟨hcalled, rfl⟩ := hcalls.unique hcalls'
  cases hcalled
  cases hcan.held.symm.trans hcan'.held
  cases hcan.price.symm.trans hcan'.price
  cases hpay.symm.trans hpay'
  cases hannounced.symm.trans hannounced'
  exact ⟨rfl, rfl⟩

theorem Resolves.fills (h : m.Resolves depth c id resolved) :
    m.Fills (m.limits.maxHandSize + 1) resolved.game := by
  obtain @⟨hex, chosen, -, h⟩ := h
  have hconduct := h.conduct (Play.goes_runner depth) (Play.built_runner false depth)
  intro d
  rw [← m.hand_scratch c.player d chosen]
  exact hconduct.within.hands d

/-- The one card that a hand has too many can be the event itself, as long as it is there. -/
theorem Resolves.gone (h : m.Resolves depth c id resolved)
    (hands : (m.seat c.player).hand.length ≤ m.limits.maxHandSize + 1)
    (hover : m.limits.maxHandSize <
      ((resolved.game.dropFromHand c.player id).seat c.player).hand.length) :
    (resolved.game.seat c.player).cardInHand? id = none := by
  cases hheld : (resolved.game.seat c.player).cardInHand? id with
  | none => rfl
  | some card =>
    have hfills := h.fills c.player
    have hdropped : ((resolved.game.dropFromHand c.player id).seat c.player).hand.length =
        (resolved.game.seat c.player).hand.length - 1 := by
      rw [Match.dropFromHand, seat_changeSeat_self]
      have hid : (card.id == id) = true := by simpa using List.find?_some hheld
      exact List.length_eraseP_of_mem (List.mem_of_find?_eq_some hheld) hid
    omega

/-- Without an event being resolved a hand takes cards up to the limit of the match. -/
theorem fills_of_within {s s' : Stage} (hbegins : m.Repeats s.game)
    (h : s.game.Within s.game.handLimit s'.game) (hslot : m.eventResolving = false) :
    m.Fills m.limits.maxHandSize s'.game := by
  have hbegun : m.Within m.limits.maxHandSize s.game := hbegins.within
  have hlimit : s.game.handLimit = m.limits.maxHandSize := by
    rw [hbegun.handLimit, handLimit, hslot]
    rfl
  have hands := h.hands
  rw [hlimit] at hands
  exact hbegun.hands.trans hands

/-- A hand grows over the limit only with an event that overfills it. -/
theorem hand_of_performs {resumption : Resumption} {chosen : List Choice} {st : Stage}
    (hcalls : m.heard.Calls c resumption chosen) (h : Attempt.Performs (Play.runner depth) c.player
      (m.heard.scratch c.player chosen) resumption st) (hslot : m.eventResolving = false)
    (d : Color) : (st.game.seat d).hand.length ≤ max (m.seat d).hand.length m.limits.maxHandSize ∨
      m.Overfills depth c d := by
  have hbegins := (repeats_heard m).trans (repeats_scratch c.player chosen m.heard)
  cases h with
  | conduct h => exact .inl (fills_of_within hbegins h.within hslot d)
  | piece hpaid hlands hsettled h =>
    exact .inl (fills_of_within hbegins (hlands.within_played hpaid hsettled h) hslot d)
  | @event id hex resolved shelved _ hresolves hshelved hrest =>
    have hconduct := hresolves.conduct (Play.goes_runner depth) (Play.built_runner false depth)
    have hput : resolved.game.Within 0 shelved.game := hshelved.within
    have hlimits : shelved.game.limits = m.limits := hput.limits.trans hconduct.within.limits
    have hfinal : (st.game.seat d).hand.length ≤
        max (shelved.game.seat d).hand.length m.limits.maxHandSize := by
      rw [← hlimits]
      exact hrest.within.hands d
    by_cases hover : m.limits.maxHandSize < (shelved.game.seat d).hand.length
    · rw [hshelved.hand d] at hover
      exact .inr ⟨id, resolved, .event hcalls hresolves, hover⟩
    · exact .inl (by omega)

theorem hand_submitted (h : m.submitTraced depth c = .ok (m', trace))
    (hslot : m.eventResolving = false) (d : Color) :
    (m'.seat d).hand.length ≤ max (m.seat d).hand.length m.limits.maxHandSize ∨
      m'.Accepted ∧ m.Overfills depth c d := by
  by_cases haccepted : m'.Accepted
  · cases fulfilled h haccepted with
    | @performed resumption chosen st st' hcalls hrun hsettle =>
      have hsettled := (performs_perform hrun).next (conduct_settle hsettle)
      have hreleased : st'.game.Within 0 (st'.game.release c.player) :=
        (repeats_release c.player st'.game).within
      have hhand := hreleased.hands d
      obtain hfits | hover := hand_of_performs hcalls hsettled hslot d
      · exact .inl (by omega)
      · exact .inr ⟨haccepted, hover⟩
    | @passed st st' _ hpass hsettle =>
      have hconduct := (conduct_passTurn hpass).trans (conduct_settle hsettle)
      exact .inl (fills_of_within (repeats_heard m) hconduct.within hslot d)
  · obtain ⟨first, last, hundergoes⟩ := undergoes h
    have hkept : m.Within m.limits.maxHandSize m' := (hundergoes.discarded haccepted).within
    exact .inl (hkept.hands d)

end Match

namespace MatchSetup

/-- A match that comes about while no event that is carried out overfills a hand. -/
inductive Fits (s : MatchSetup) : Match → Prop where
  | start {m : Match} : s.start = .ok m → s.Fits m
  | next {depth : Nat} {m m' : Match} {c : Command} {trace : List Happening} : s.Fits m →
    m.submitTraced depth c = .ok (m', trace) →
    (m'.Accepted → ∀ d, ¬ m.Overfills depth c d) → s.Fits m'

variable {s : MatchSetup} {m : Match}

theorem Fits.reaches (hm : s.Fits m) : s.Reaches m := by
  induction hm with
  | start h => exact .start h
  | next _ h _ ih => exact ih.next h

theorem Fits.hand_le (hsize : s.limits.startingHandSize ≤ s.limits.maxHandSize) (hm : s.Fits m)
    (d : Color) : (m.seat d).hand.length ≤ s.limits.maxHandSize := by
  induction hm with
  | start h => exact Nat.le_trans (hand_start h d) hsize
  | @next depth m m' c trace hm h hfits ih =>
    have hbinds := hm.reaches.binds
    obtain hhand | ⟨haccepted, hover⟩ := Match.hand_submitted h hbinds.slot d
    · rw [hbinds.limits] at hhand
      omega
    · exact absurd hover (hfits haccepted d)

/-- No hand holds more than one card too many, and none holds any too many as long as no event
overfills it. With a single command a hand grows over the limit only when the command is carried out
and an event has been resolved that leaves the player too many cards besides it; and when it is the
player of the event, the event has left the hand by then. -/
theorem Reaches.hands_limited (hsize : s.limits.startingHandSize ≤ s.limits.maxHandSize)
    (hm : s.Reaches m) :
    (∀ d, (m.seat d).hand.length ≤ s.limits.maxHandSize + 1) ∧
    (s.Fits m → ∀ d, (m.seat d).hand.length ≤ s.limits.maxHandSize) ∧
    ∀ (depth : Nat) (c : Command) (m' : Match) (trace : List Happening),
      m.submitTraced depth c = .ok (m', trace) → ∀ d,
      (m'.seat d).hand.length ≤ max (m.seat d).hand.length s.limits.maxHandSize ∨
      m'.Accepted ∧ ∃ id resolved, m.Resolves depth c id resolved ∧
        s.limits.maxHandSize < ((resolved.game.dropFromHand c.player id).seat d).hand.length ∧
        (d = c.player → (resolved.game.seat d).cardInHand? id = none) := by
  have hbinds := hm.binds
  have hands : ∀ d, (m.seat d).hand.length ≤ s.limits.maxHandSize + 1 := by
    intro d
    have hhand := hbinds.hands d
    omega
  refine ⟨hands, fun hfits d => hfits.hand_le hsize d, fun depth c m' trace h d => ?_⟩
  obtain hhand | ⟨haccepted, id, resolved, hresolves, hover⟩ :=
    Match.hand_submitted h hbinds.slot d
  · rw [hbinds.limits] at hhand
    exact .inl hhand
  · refine .inr ⟨haccepted, id, resolved, hresolves, hbinds.limits ▸ hover, ?_⟩
    rintro rfl
    exact hresolves.gone (hbinds.limits ▸ hands _) hover

/-- With room for two cards in a hand blue draws two in the place of the event. -/
theorem Reaches.hands_limited_solo :
    ∃ (s : MatchSetup) (m m' : Match) (trace : List Happening),
      s.limits.startingHandSize ≤ s.limits.maxHandSize ∧ s.limits.maxHandSize = 2 ∧ s.Reaches m ∧
      m.submitTraced Match.maxDepth .playSolo = .ok (m', trace) ∧ m'.Accepted ∧ s.Fits m' ∧
      (∃ resolved, m.Resolves Match.maxDepth .playSolo "blue/event" resolved ∧
        (resolved.game.seat .blue).hand.length = 3) ∧
      (m'.seat .blue).hand.length = 2 ∧
      ∀ d, (m'.seat d).hand.length ≤ s.limits.maxHandSize := by
  let solo := MatchSetup.solo [.draw .selfPlayer (.const 2)]
  let s : MatchSetup :=
    { solo with
      decks := ⟨solo.decks.blue.flatMap (List.replicate 4), []⟩
      limits := { Limits.standard with maxHandSize := 2, startingHandSize := 1 } }
  have hrun : (s.start.holds fun m => m.pending.isNone &&
      (((m.seat .blue).cardInHand? "blue/event").any fun card =>
        decide (card.type = .event) && card.effectiveCost.holds (· == 0) &&
        ((Attempt.pay .blue 0).run.run ((m.heard.scratch .blue []).resolving true)).holds fun x =>
          x.1.isOk && ((Attempt.announcement (Play.runner Match.maxDepth) .blue card).run.run
            x.2).holds fun y => y.1.isOk && decide ((y.2.game.seat .blue).hand.length = 3 ∧
              ((y.2.game.dropFromHand .blue "blue/event").seat .blue).hand.length = 2 ∧
              ((y.2.game.dropFromHand .blue "blue/event").seat .orange).hand.length = 0)) &&
      (m.submitTraced Match.maxDepth .playSolo).holds fun x =>
        x.1.refusal.isNone && x.1.pending.isNone &&
          decide ((x.1.seat .blue).hand.length = 2)) = true := by
    decide +kernel
  obtain ⟨m, hstart, hrun⟩ := Outcome.exists_of_holds hrun
  obtain ⟨hbefore, hrun⟩ := Bool.and_eq_true_iff.1 hrun
  obtain ⟨hpending, hcard⟩ := Bool.and_eq_true_iff.1 hbefore
  obtain ⟨card, hheld, hcard⟩ := (Option.any_eq_true _ _).1 hcard
  obtain ⟨hplayable, hcard⟩ := Bool.and_eq_true_iff.1 hcard
  obtain ⟨htype, hcost⟩ := Bool.and_eq_true_iff.1 hplayable
  obtain ⟨cost, hprice, hfree⟩ := Outcome.exists_of_holds hcost
  obtain ⟨⟨x, paid⟩, hpay, hcard⟩ := Outcome.exists_of_holds hcard
  obtain ⟨hx, hcard⟩ := Bool.and_eq_true_iff.1 hcard
  obtain ⟨⟨y, resolved⟩, hannounced, hcard⟩ := Outcome.exists_of_holds hcard
  obtain ⟨hy, hhands⟩ := Bool.and_eq_true_iff.1 hcard
  obtain ⟨⟨m', trace⟩, hplay, hrun⟩ := Outcome.exists_of_holds hrun
  obtain _ | ctx := y
  · cases hy
  obtain _ | ⟨⟩ := x
  · cases hx
  simp only [Bool.and_eq_true, Option.isNone_iff_eq_none, decide_eq_true_eq] at hpending hrun
  simp only [decide_eq_true_eq, beq_iff_eq] at htype hfree hhands
  obtain ⟨⟨hrefusal, hdone⟩, hhand⟩ := hrun
  obtain ⟨hfull, hblue, horange⟩ := hhands
  subst hfree
  have hcalls : m.heard.Calls .playSolo (.playCard "blue/event" none) [] := .start hpending rfl
  have hm : s.Fits m := .start hstart
  have hbinds := hm.reaches.binds
  have hcan : (m.heard.scratch .blue []).Affords .blue "blue/event" card 0 :=
    ⟨hheld, hprice, hbinds.solvent.available .blue⟩
  have hresolves : m.Resolves Match.maxDepth .playSolo "blue/event" resolved :=
    .event hcalls (.event hcan htype hpay hannounced)
  have hm' : s.Fits m' := by
    refine hm.next hplay fun _ d => ?_
    rintro ⟨id, resolved', hresolves', hover⟩
    obtain ⟨rfl, rfl⟩ := hresolves.unique hresolves'
    have hover : 2 < ((resolved'.game.dropFromHand .blue "blue/event").seat d).hand.length := by
      rw [hbinds.limits] at hover
      exact hover
    cases d <;> omega
  exact ⟨s, m, m', trace, by decide, rfl, hm.reaches, hplay, ⟨hrefusal, hdone⟩, hm',
    ⟨resolved, hresolves, hfull⟩, hhand, (hm'.reaches.hands_limited (by decide)).2.1 hm'⟩

/-- The hand takes one card. Blue's event has orange draw one, who holds one already and no event. -/
theorem one_card_too_many :
    ∃ (s : MatchSetup) (m : Match), s.limits.startingHandSize ≤ s.limits.maxHandSize ∧ s.Reaches m ∧
      ¬ (m.seat .orange).hand.length ≤ s.limits.maxHandSize := by
  let solo := MatchSetup.solo [.draw .opponent (.const 1)]
  let s : MatchSetup :=
    { solo with
      decks := ⟨solo.decks.blue, solo.decks.blue.flatMap (List.replicate 2)⟩
      limits := { Limits.standard with maxHandSize := 1, startingHandSize := 1 } }
  have hrun : (s.start.holds fun m => (m.submitTraced Match.maxDepth .playSolo).holds fun x =>
      decide ((x.1.seat .orange).hand.length = 2)) = true := by
    decide +kernel
  obtain ⟨m, hstart, hrun⟩ := Outcome.exists_of_holds hrun
  obtain ⟨⟨m', trace⟩, hplay, hrun⟩ := Outcome.exists_of_holds hrun
  have htwo : (m'.seat .orange).hand.length = 2 := by simpa using hrun
  exact ⟨s, m', by decide, .next (.start hstart) hplay, by rw [htwo]; decide⟩

end MatchSetup
end HexDuel
