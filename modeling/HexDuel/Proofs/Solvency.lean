import HexDuel.Proofs.Bounds

/-!
Energy. Nobody has more of it in a turn than the match allows, and nobody ever owes any: not between
commands, not in a copy of the match that is thrown away, and not between one action and the next. A
card is paid for before anything comes of it, and with what its player has.
-/

set_option autoImplicit false

namespace HexDuel

variable {s s' : Stage}

/-- No modifier of energy, whatever numbers it is made of, leaves a player with less than none. -/
theorem Resolving.solvent_executeAll {depth : Nat} {actions : List Action} {ctx : Context}
    {x : Unit × Context} (hs : s.game.Solvent)
    (h : ((executeAll (Play.runner depth) actions).run ctx).run s = .ok (x, s')) :
    s'.game.Solvent := by
  have hconduct : Conduct s s' := (goes_executeAll (Play.goes_runner depth)
    (Play.built_runner false depth) actions ctx).conduct h
  exact hconduct.within.solvent hs

theorem Match.available_spent (m : Match) (player c : Color) (cost : Int) :
    ((m.changeSeat player (·.setAvailable ((m.seat player).energy.available - cost))).seat
      c).energy.available = (m.seat c).energy.available - if c = player then cost else 0 := by
  cases player <;> cases c <;>
    simp [changeSeat, seat, PerSide.modify, PerSide.get, Seat.setAvailable, Seat.setEnergy]

/-- Who plays a card has paid for it, and nobody else has. -/
theorem Attempt.Played.available {run : Runner} {player : Color} {card : Card} {cost : Int}
    {hex : Option Hex} {paid : Stage} (h : Played run player card cost hex s paid s') (c : Color) :
    (paid.game.seat c).energy.available =
      (s.game.seat c).energy.available - if c = player then cost else 0 := by
  cases h with
  | event _ hpay =>
    rw [paid_of_run hpay]
    exact (s.resolving true).game.available_spent player c cost
  | piece _ _ hpay =>
    rw [paid_of_run hpay]
    exact s.game.available_spent player c cost

namespace MatchSetup
variable {s : MatchSetup} {m : Match}

/-- Between commands nobody has more energy than the match allows or owes any. Nor does anyone in the
copy of the match that a command is carried out on, whatever becomes of it, or after any actions that
are taken while nobody does. A command that is refused or waits for an answer costs nothing. When a
card is played, at once or after answers, it costs its player once what it cost when the command
began; the player had as much, and pays before anything comes of the card. -/
theorem Reaches.energy_bounded (hm : s.Reaches m) :
    (∀ c, 0 ≤ (m.seat c).energy.total ∧ (m.seat c).energy.total ≤ s.limits.maxEnergy ∧
      0 ≤ (m.seat c).energy.available) ∧
    (∀ (depth : Nat) (player : Color) (resumption : Resumption) (chosen : List Choice) (st : Stage),
      (Attempt.perform (Play.runner depth) player resumption).run.run
        (m.heard.scratch player chosen) = .ok (.ok (), st) →
      ∀ c, 0 ≤ (st.game.seat c).energy.available) ∧
    (∀ (depth : Nat) (actions : List Action) (ctx : Context) (st st' : Stage) (x : Unit × Context),
      st.game.Solvent →
      ((Resolving.executeAll (Play.runner depth) actions).run ctx).run st = .ok (x, st') →
      st'.game.Solvent) ∧
    ∀ (depth : Nat) (c : Command) (m' : Match) (trace : List Happening),
      m.submitTraced depth c = .ok (m', trace) →
      (¬ m'.Accepted → ∀ d, (m'.seat d).energy = (m.seat d).energy) ∧
      ∀ (id : CardId) (hex : Option Hex) (chosen : List Choice), m'.Accepted →
        m.heard.Calls c (.playCard id hex) chosen →
        ∃ (card : Card) (cost : Int) (paid st st' : Stage),
          (m.seat c.player).cardInHand? id = some card ∧ card.effectiveCost = .ok cost ∧
          cost ≤ (m.seat c.player).energy.available ∧
          Attempt.Played (Play.runner depth) c.player card cost hex
            (m.heard.scratch c.player chosen) paid st ∧
          (∀ d, (paid.game.seat d).energy.available =
            (m.seat d).energy.available - (if d = c.player then cost else 0) ∧
              0 ≤ (paid.game.seat d).energy.available) ∧
          (Play.settle (Play.runner depth)).run st = .ok ((), st') ∧
          st'.game.release c.player = m' := by
  have hbinds := hm.binds
  have hscratch : ∀ player chosen, m.Within 0 (m.heard.scratch player chosen).game :=
    fun player chosen => ((Match.repeats_heard m).trans
      (Match.repeats_scratch player chosen m.heard)).within
  refine ⟨fun c => ?_, ?_, fun _ _ _ _ _ _ => Resolving.solvent_executeAll, ?_⟩
  · have htotal := hbinds.solvent.total c
    rw [hbinds.limits] at htotal
    exact ⟨htotal.1, htotal.2, hbinds.solvent.available c⟩
  · intro depth player resumption chosen st hrun
    have hwithin := (Match.venture_perform hrun).within
      ((hscratch player chosen).slot.trans hbinds.slot)
    exact (hwithin.solvent ((hscratch player chosen).solvent hbinds.solvent)).available
  · intro depth c m' trace h
    refine ⟨fun hnot d => ?_, fun id hex chosen haccepted hcalls => ?_⟩
    · obtain ⟨first, last, hundergoes⟩ := Match.undergoes h
      have hbearing := (hundergoes.discarded hnot).bearing
      exact Match.energy_congr (Match.clock_of_bearing hbearing)
        (Match.means_of_bearing hbearing) d
    · obtain ⟨st, st', hrun, hsettle, hend⟩ := (Match.fulfilled h haccepted).performs hcalls
      obtain ⟨card, cost, paid, hcan, hplayed⟩ := Attempt.played_of_run hrun
      have hheld := hcan.held
      have henough := hcan.enough
      have havailable := hplayed.available
      simp only [Match.hand_scratch, Match.energy_scratch, Seat.cardInHand?] at hheld henough havailable
      refine ⟨card, cost, paid, st, st', hheld, hcan.price, henough, hplayed, fun d => ?_, hsettle,
        hend⟩
      refine ⟨havailable d, ?_⟩
      have hbefore := hbinds.solvent.available d
      rw [havailable d]
      split
      · subst d
        omega
      · omega

/-- Blue pays one energy, which is all there is, for an event that multiplies what is left by minus
three and then takes five away. -/
theorem Reaches.energy_bounded_solo :
    ∃ (s : MatchSetup) (m m' : Match) (trace : List Happening), s.Reaches m ∧
      (m.seat .blue).energy = ⟨1, 1⟩ ∧
      m.submitTraced Match.maxDepth .playSolo = .ok (m', trace) ∧ m'.Accepted ∧
      m.heard.Calls .playSolo (.playCard "blue/event" none) [] ∧
      (m'.seat .blue).energy = ⟨0, 1⟩ ∧
      ∃ (card : Card) (paid st : Stage), card.effectiveCost = .ok 1 ∧
        Attempt.Played (Play.runner Match.maxDepth) .blue card 1 none (m.heard.scratch .blue []) paid
          st ∧
        (paid.game.seat .blue).energy.available = 0 := by
  let solo := MatchSetup.solo
    [.modifyEnergy .selfPlayer (.multiply (.const (-3))),
      .modifyEnergy .selfPlayer (.subtract (.const 5))]
  let s : MatchSetup :=
    { solo with
      decks := ⟨solo.decks.blue.map fun card => { card with baseCost := 1, cost := 1 }, []⟩ }
  have hrun : (s.start.holds fun m =>
      (m.pending.isNone && decide ((m.seat .blue).energy = ⟨1, 1⟩) &&
        ((m.seat .blue).cardInHand? "blue/event").any (·.effectiveCost.holds (· == 1))) &&
      (m.submitTraced Match.maxDepth .playSolo).holds fun x =>
        x.1.refusal.isNone && x.1.pending.isNone &&
          decide ((x.1.seat .blue).energy = ⟨0, 1⟩)) = true := by
    decide +kernel
  obtain ⟨m, hstart, hrun⟩ := Outcome.exists_of_holds hrun
  obtain ⟨hbefore, hrun⟩ := Bool.and_eq_true_iff.1 hrun
  obtain ⟨⟨m', trace⟩, hplay, hrun⟩ := Outcome.exists_of_holds hrun
  simp only [Bool.and_eq_true, Option.isNone_iff_eq_none, decide_eq_true_eq] at hbefore hrun
  obtain ⟨⟨hpending, henergy⟩, hcard⟩ := hbefore
  obtain ⟨⟨hrefusal, hdone⟩, hspent⟩ := hrun
  have hm : s.Reaches m := .start hstart
  have hcalls : m.heard.Calls .playSolo (.playCard "blue/event" none) [] := .start hpending rfl
  obtain ⟨-, -, -, hcommands⟩ := hm.energy_bounded
  obtain ⟨card, cost, paid, st, st', hheld, hprice, henough, hplayed, hpaid, -, -⟩ :=
    (hcommands _ _ _ _ hplay).2 _ _ _ ⟨hrefusal, hdone⟩ hcalls
  have hheld : (m.seat .blue).cardInHand? "blue/event" = some card := hheld
  rw [hheld] at hcard
  obtain ⟨x, hx, hone⟩ := Outcome.exists_of_holds (x := card.effectiveCost) hcard
  obtain rfl : x = cost := Except.ok.inj (hx.symm.trans hprice)
  obtain rfl : x = 1 := by simpa using hone
  have havailable := (hpaid .blue).1
  rw [henergy] at havailable
  exact ⟨s, m, m', trace, hm, henergy, hplay, ⟨hrefusal, hdone⟩, hcalls, hspent, card, paid, st,
    hprice, hplayed, havailable⟩

end MatchSetup
end HexDuel
