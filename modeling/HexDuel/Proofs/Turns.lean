import HexDuel.Proofs.Chronicle
import HexDuel.Proofs.Victory

/-!
Turns and what goes by them. The number of the turn and the energy of a player are those of the
turns that have begun, whatever ended them, and whose turn it is has begun the last one. The players
take turns as long as no turn ends while another one is ending: an effect that answers the end of a
turn by ending it once more has the other player begin two turns in a row.
-/

set_option autoImplicit false

namespace HexDuel

/-! ### What is told of turns -/

namespace Happening

def isToll : Happening → Bool
  | .turnEnded _ | .turnBegan _ => true
  | _ => false

/-- Whose turn begins. -/
def beginner? : Happening → Option Color
  | .turnBegan c => some c
  | _ => none

theorem isBeat_of_isToll {h : Happening} (ht : h.isToll = true) : h.isBeat = true := by
  cases h <;> first | rfl | cases ht

end Happening

/-- What the trace tells of turns. -/
def tolls (trace : List Happening) : List Happening := trace.filter (·.isToll)

theorem tolls_beats (trace : List Happening) : tolls (beats trace) = tolls trace := by
  unfold tolls beats
  rw [List.filter_filter]
  refine List.filter_congr fun h _ => ?_
  cases ht : h.isToll with
  | false => rfl
  | true => rw [Happening.isBeat_of_isToll ht]; rfl

/-- The players whose turns have begun, last first. Blue has begun the first one. -/
def turns (past : List Happening) : List Color := past.filterMap (·.beginner?) ++ [.blue]

theorem turns_tolls (past : List Happening) : turns (tolls past) = turns past := by
  unfold turns tolls
  rw [List.filterMap_filter]
  congr 2
  funext h
  cases h <;> rfl

theorem turns_ne_nil (past : List Happening) : turns past ≠ [] := by simp [turns]

/-- A turn is ending: its end has been told, and the next one has not begun. -/
def ending : List Happening → Bool
  | [] => false
  | .turnEnded _ :: _ => true
  | .turnBegan _ :: _ => false
  | _ :: past => ending past

/-- No turn has ended while another one was ending. -/
def Orderly : List Happening → Prop
  | [] => True
  | .turnEnded _ :: past => ending past = false ∧ Orderly past
  | _ :: past => Orderly past

instance decidableOrderly : DecidablePred Orderly
  | [] => .isTrue trivial
  | .turnEnded _ :: past =>
    have := decidableOrderly past
    inferInstanceAs (Decidable (ending past = false ∧ Orderly past))
  | .executed _ :: past | .picked _ :: past | .numbered _ :: past | .suspended _ _ _ :: past
  | .answered _ _ _ _ _ :: past | .toppled _ :: past | .combat _ _ :: past
  | .turnBegan _ :: past => decidableOrderly past

theorem ending_tolls (past : List Happening) : ending (tolls past) = ending past := by
  induction past with
  | nil => rfl
  | cons h past ih => cases h <;> first | rfl | exact ih

theorem orderly_tolls (past : List Happening) : Orderly (tolls past) ↔ Orderly past := by
  induction past with
  | nil => rfl
  | cons h past ih =>
    cases h with
    | turnEnded => exact and_congr (by rw [← ending_tolls past]; rfl) ih
    | _ => exact ih

theorem Orderly.of_suffix {earlier later : List Happening} (h : Orderly later)
    (hsuffix : earlier <:+ later) : Orderly earlier := by
  induction later with
  | nil =>
    obtain rfl := List.suffix_nil.1 hsuffix
    trivial
  | cons x later ih =>
    obtain rfl | hsuffix := List.suffix_cons_iff.1 hsuffix
    · exact h
    · refine ih ?_ hsuffix
      cases x with
      | turnEnded => exact h.2
      | _ => exact h

theorem Orderly.earlier {earlier later past : List Happening} (h : Orderly (later ++ past))
    (hsuffix : earlier <:+ later) : Orderly (earlier ++ past) := by
  obtain ⟨between, rfl⟩ := hsuffix
  rw [List.append_assoc] at h
  exact h.of_suffix (List.suffix_append between _)

/-! ### Conduct by turns -/

namespace Stage
variable {s s' s'' : Stage}

/-- The clock is untouched, and nothing is told of turns. -/
structure Timely (s s' : Stage) : Prop where
  clock : s'.game.clock = s.game.clock
  tolls : HexDuel.tolls s'.trace = HexDuel.tolls s.trace

theorem Timely.trans (h : s.Timely s') (h' : s'.Timely s'') : s.Timely s'' :=
  ⟨h'.clock.trans h.clock, h'.tolls.trans h.tolls⟩

theorem Calm.timely (h : s.Calm s') : s.Timely s' where
  clock := h.clock
  tolls := by rw [← tolls_beats s'.trace, h.beats, tolls_beats]

theorem Dooms.timely {id : PieceId} {start : Stage} (h : s.Dooms id start) (card : Card) :
    s.Timely (start.topple id card) := by
  obtain rfl | rfl := h <;> exact ⟨rfl, rfl⟩

variable {past : List Happening}

theorem Timely.tolls_append (h : s.Timely s') :
    HexDuel.tolls (s'.trace ++ past) = HexDuel.tolls (s.trace ++ past) := by
  have hsplit : ∀ later, HexDuel.tolls (later ++ past) = HexDuel.tolls later ++ HexDuel.tolls past :=
    fun later => List.filter_append later past
  rw [hsplit, hsplit, h.tolls]

theorem Timely.turns (h : s.Timely s') : turns (s'.trace ++ past) = turns (s.trace ++ past) := by
  rw [← turns_tolls, h.tolls_append, turns_tolls]

theorem Timely.ending (h : s.Timely s') :
    ending (s'.trace ++ past) = ending (s.trace ++ past) := by
  rw [← ending_tolls, h.tolls_append, ending_tolls]

theorem Timely.orderly (h : s.Timely s') :
    Orderly (s'.trace ++ past) ↔ Orderly (s.trace ++ past) := by
  rw [← orderly_tolls, h.tolls_append, orderly_tolls]

end Stage

/-- Conduct goes by what leaves the clock alone and by turns that pass. -/
theorem Conduct.by_turns {P : Stage → Stage → Prop}
    (htimely : ∀ s s', Deeds s s' → s.Timely s' → P s s')
    (htrans : ∀ s s' s'', Deeds s' s'' → P s s' → P s' s'' → P s s'')
    (hpass : ∀ s ended s', Conduct s.retire ended → P s.retire ended →
      (ended.handOver s.game.turn.opponent).Begins s' → P s s')
    {s s' : Stage} (h : Conduct s s') : P s s' := by
  have hwhole : ∀ {s s' : Stage}, Conduct s s' → s.Timely s' → P s s' := fun hconduct =>
    htimely _ _ hconduct.act.deeds
  induction h with
  | refl s => exact hwhole (.refl s) ⟨rfl, rfl⟩
  | trans _ h' ih ih' => exact htrans _ _ _ h'.act.deeds ih ih'
  | errand h hfrugal hgoes htires => exact hwhole (.errand h hfrugal hgoes htires) hfrugal.timely
  | delay h => exact hwhole (.delay h) h.frugal.timely
  | @fund c available s h =>
    have hclock := congrArg Prod.fst (s.game.standing_setAvailable c available)
    exact hwhole (.fund c h) ⟨hclock, rfl⟩
  | reapply h =>
    exact hwhole (.reapply h) (frugal_of_tended (Play.goes_reapply _ _ _ h)).timely
  | install id sentence duration h =>
    have hfrugal := frugal_of_tended (Play.goes_grant _ _ _ _ _ _ _ h)
    exact hwhole (.install id sentence duration h) hfrugal.timely
  | condemn id h => exact hwhole (.condemn id h) ⟨rfl, rfl⟩
  | @destroy _ p _ _ _ _ _ _ hdooms hfallen hburied ih =>
    have hbegun := htimely _ _ (hdooms.deeds p.card) (hdooms.timely p.card)
    have hended := htimely _ _ hburied.deeds hburied.frugal.timely
    exact htrans _ _ _ hburied.deeds (htrans _ _ _ hfallen.act.deeds hbegun ih) hended
  | @giveBack id p s mid h =>
    exact hwhole (.giveBack h) (h.frugal.trans (mid.frugal_returned p.owner p.card.reset)).timely
  | spawn hnoted hresolve hhead hinquired htakes hknown =>
    have hfound := (Resolving.inquired_of_resolve hresolve).trans hinquired
    have hfrugal := frugal_of_inquired hfound
    exact hwhole (.spawn hnoted hresolve hhead hinquired htakes hknown)
      (hfrugal.trans (.place _ _ _ false)).timely
  | pass hended _ hbegins ih => exact hpass _ _ _ hended ih hbegins

variable {s s' : Stage} {past : List Happening}

theorem Stage.retire_bearing (s : Stage) : s.retire.game.bearing = s.game.bearing :=
  (Match.bearing_withdrawAll _ _).trans (s.game.bearing_release s.game.turn)

theorem Stage.Begins.deeds (h : s.Begins s') : Deeds s s' := h.act.deeds

/-- While a turn is ending no other one ends, and so no turn passes. -/
theorem Conduct.timely (h : Conduct s s') (hending : ending (s.trace ++ past) = true)
    (horderly : Orderly (s'.trace ++ past)) : s.Timely s' := by
  revert hending horderly
  refine Conduct.by_turns (P := fun s s' => ending (s.trace ++ past) = true →
    Orderly (s'.trace ++ past) → s.Timely s') (fun _ _ _ htimely _ _ => htimely) ?_ ?_ h
  · intro s s' s'' hdeeds hfirst hlast hending horderly
    have hmid : Orderly (s'.trace ++ past) := horderly.earlier hdeeds.steps.trace_suffix
    have hbefore := hfirst hending hmid
    exact hbefore.trans (hlast (hbefore.ending.trans hending) horderly)
  · intro s ended s' hended _ hbegins hending horderly
    have hsuffix : s.retire.trace <:+ s'.trace :=
      hended.act.deeds.steps.trace_suffix.trans hbegins.deeds.steps.trace_suffix
    have hretired : Orderly (s.retire.trace ++ past) := horderly.earlier hsuffix
    exact nomatch hending.symm.trans hretired.1

/-! ### The account of the turns -/

theorem Deeds.winner (h : Deeds s s') {w : Color} (hw : s.game.winner = some w) :
    s'.game.winner = some w := by
  have hsteps := h.steps.decides
  clear h
  induction hsteps with
  | refl => exact hw
  | tail _ hlast ih => exact hlast.decides.stands w ih

theorem Deeds.undecided (h : Deeds s s') (hnone : s'.game.winner = none) :
    s.game.winner = none := by
  cases hw : s.game.winner with
  | none => rfl
  | some w => exact nomatch hnone.symm.trans (h.winner hw)

namespace Match

/-- The number of the turn and the energy of the players are those of the turns that have begun, and
as long as nobody has won it is the turn of who has begun the last one. -/
structure Timed (m : Match) (past : List Happening) : Prop where
  positive : 0 < m.limits.maxEnergy
  number : m.turnNumber = (turns past).length
  total : ∀ c, (m.seat c).energy.total = min m.limits.maxEnergy ((turns past).count c)
  turn : m.winner = none → (turns past).head? = some m.turn
  alternates : Orderly past → (turns past).IsChain (· ≠ ·)

variable {m m' : Match}

theorem Timed.of_clock (hm : m.Timed past) (hclock : m'.clock = m.clock)
    (hwinner : m'.winner = none → m.winner = none) {past' : List Happening}
    (hturns : turns past' = turns past) (horderly : Orderly past' → Orderly past) :
    m'.Timed past' where
  positive := by
    have hlimits : m'.limits = m.limits := congrArg Clock.limits hclock
    rw [hlimits]
    exact hm.positive
  number := by
    have hnumber : m'.turnNumber = m.turnNumber := congrArg Clock.turnNumber hclock
    rw [hnumber, hm.number, hturns]
  total c := by
    have hlimits : m'.limits = m.limits := congrArg Clock.limits hclock
    rw [← totals_clock, hclock, totals_clock, hlimits, hm.total c, hturns]
  turn hnone := by
    have hturn : m'.turn = m.turn := congrArg Clock.turn hclock
    rw [hturns, hturn]
    exact hm.turn (hwinner hnone)
  alternates h := by
    rw [hturns]
    exact hm.alternates (horderly h)

/-- The last turn is over, and nobody is to have another one. -/
theorem Timed.over (hm : m.Timed past) {c : Color} (hover : m.checkVictory.isOver = true) :
    ({ m.checkVictory with turn := c } : Match).Timed past := by
  have hwinner : m.checkVictory.winner ≠ none := fun hnone => by simp [isOver, hnone] at hover
  have hchecked : m.checkVictory.Timed past :=
    hm.of_clock m.clock_checkVictory (fun hnone => (hwinner hnone).elim) rfl id
  exact ⟨hchecked.positive, hchecked.number, hchecked.total, fun hnone => (hwinner hnone).elim,
    hchecked.alternates⟩

end Match

/-- The clock when the next turn begins, which is that of the player. -/
def Match.nextClock (m : Match) (c : Color) : Clock where
  turn := c
  turnNumber := m.turnNumber + 1
  limits := m.limits
  totals := m.clock.totals.modify c fun _ =>
    min ((m.seat c).energy.total + 1) m.limits.maxEnergy

theorem Match.nextClock_congr {m m' : Match} (h : m'.clock = m.clock) (c : Color) :
    m'.nextClock c = m.nextClock c := by
  have hnumber : m'.turnNumber = m.turnNumber := congrArg Clock.turnNumber h
  have hlimits : m'.limits = m.limits := congrArg Clock.limits h
  unfold nextClock
  rw [← totals_clock, ← totals_clock, h, hnumber, hlimits]

theorem Stage.Begins.handedOver {s s' : Stage} {c : Color} (h : (s.handOver c).Begins s') :
    s' = s.handOver c ∧ s.game.checkVictory.isOver = true ∨
    s.game.winner = none ∧ s'.game.clock = s.game.nextClock c ∧
      s'.trace = .turnBegan c :: s.trace := by
  cases h with
  | closed hover => exact .inl ⟨rfl, hover⟩
  | begun hopen =>
    refine .inr ⟨?_, ?_, rfl⟩
    · cases hw : s.game.winner with
      | none => rfl
      | some w =>
        have hstands := s.game.decides_checkVictory.stands w hw
        simp [handOver, map, Match.isOver, hstands] at hopen
    · rw [← Match.nextClock_congr s.game.clock_checkVictory]
      cases c <;> rfl

/-- A turn begins of who has not had the last one. -/
theorem Match.Timed.begun {m m' : Match} {c : Color} (hm : m.Timed past)
    (hclock : m'.clock = m.nextClock c)
    (hlast : Orderly past → (turns past).head? = some c.opponent) :
    m'.Timed (.turnBegan c :: past) := by
  have hturns : turns (.turnBegan c :: past) = c :: turns past := rfl
  have hturn : m'.turn = c := congrArg Clock.turn hclock
  have hnumber : m'.turnNumber = m.turnNumber + 1 := congrArg Clock.turnNumber hclock
  have hlimits : m'.limits = m.limits := congrArg Clock.limits hclock
  refine ⟨hlimits ▸ hm.positive, ?_, fun d => ?_, fun _ => ?_, fun horderly => ?_⟩
  · rw [hturns, hnumber, hm.number, List.length_cons]
  · have htotals := congrArg Clock.totals hclock
    rw [← totals_clock, htotals, hturns, hlimits, nextClock]
    by_cases hd : c = d
    · subst hd
      rw [PerSide.get_modify_self, hm.total, List.count_cons_self]
      omega
    · rw [PerSide.get_modify_of_ne _ hd, totals_clock, hm.total, List.count_cons_of_ne hd]
  · rw [hturns, hturn, List.head?_cons]
  · have hbefore := hm.alternates horderly
    have hhead := hlast horderly
    rw [hturns]
    cases hpast : turns past with
    | nil => exact absurd hpast (turns_ne_nil past)
    | cons d earlier =>
      rw [hpast] at hbefore hhead
      cases hhead
      exact List.isChain_cons_cons.2 ⟨(Color.opponent_ne c).symm, hbefore⟩

theorem Match.Timed.timely (hs : s.game.Timed (s.trace ++ past)) (hdeeds : Deeds s s')
    (h : s.Timely s') : s'.game.Timed (s'.trace ++ past) :=
  hs.of_clock h.clock hdeeds.undecided h.turns h.orderly.1

/-- Whatever is done goes by the turns that it is told of. -/
theorem Conduct.timed (h : Conduct s s') (hs : s.game.Timed (s.trace ++ past)) :
    s'.game.Timed (s'.trace ++ past) := by
  revert hs
  refine Conduct.by_turns (P := fun s s' => s.game.Timed (s.trace ++ past) →
    s'.game.Timed (s'.trace ++ past)) ?_ (fun _ _ _ _ hfirst hlast hs => hlast (hfirst hs)) ?_ h
  · exact fun s s' hdeeds htimely hs => hs.timely hdeeds htimely
  · intro s ended s' hended ih hbegins hs
    have hpassing := s.act_retire.deeds.trans hended.act.deeds
    have htimed := ih (hs.of_clock (Match.clock_of_bearing s.retire_bearing) s.act_retire.deeds.undecided rfl And.right)
    obtain ⟨rfl, hover⟩ | ⟨hnone, hclock, htrace⟩ := hbegins.handedOver
    · exact htimed.over hover
    · rw [htrace]
      refine htimed.begun hclock fun horderly => ?_
      have htimely := hended.timely rfl horderly
      rw [htimely.turns, Color.opponent_opponent]
      exact hs.turn (hpassing.undecided hnone)

/-! ### Commands -/

/-- When the players take turns after blue's first one, the number of turns tells whose is the last
one and how many each of them has had. -/
theorem count_of_alternating {cs : List Color} (h : cs.IsChain (· ≠ ·))
    (hfirst : cs.getLast? = some .blue) :
    (cs.head? = some .blue ↔ cs.length % 2 = 1) ∧
    cs.count .blue = (cs.length + 1) / 2 ∧ cs.count .orange = cs.length / 2 := by
  induction cs with
  | nil => cases hfirst
  | cons c cs ih =>
    cases cs with
    | nil =>
      cases hfirst
      decide
    | cons d cs =>
      obtain ⟨hne, hchain⟩ := List.isChain_cons_cons.1 h
      rw [List.getLast?_cons_cons] at hfirst
      obtain ⟨hodd, hblue, horange⟩ := ih hchain hfirst
      rw [List.head?_cons, Option.some.injEq] at hodd
      rw [List.head?_cons, Option.some.injEq, List.length_cons]
      cases c <;> cases d
      · exact absurd rfl hne
      · rw [List.count_cons_self, List.count_cons_of_ne hne]
        have heven : (Color.orange :: cs).length % 2 ≠ 1 := fun h => nomatch hodd.2 h
        refine ⟨⟨fun _ => ?_, fun _ => rfl⟩, ?_, ?_⟩ <;> omega
      · rw [List.count_cons_self, List.count_cons_of_ne hne]
        have hodd := hodd.1 rfl
        refine ⟨⟨fun h => (nomatch h), fun h => ?_⟩, ?_, ?_⟩ <;> omega
      · exact absurd rfl hne

namespace MatchSetup
variable {s : MatchSetup} {m : Match}

theorem maxEnergy_pos (h : s.start = .ok m) : 0 < s.limits.maxEnergy := by
  unfold start at h
  cases hcheck : s.check with
  | error f => rw [hcheck] at h; cases h
  | ok =>
    unfold check at hcheck
    by_contra hle
    have hrefused : (s.limits.maxHandSize = 0 || s.limits.maxEnergy ≤ 0) = true := by
      simp [Int.not_lt.1 hle]
    cases hblue : checkDeck .blue s.decks.blue with
    | error => rw [hblue] at hcheck; cases hcheck
    | ok =>
      cases horange : checkDeck .orange s.decks.orange with
      | error => rw [hblue, horange] at hcheck; cases hcheck
      | ok =>
        rw [hblue, horange] at hcheck
        simp only [hrefused] at hcheck
        cases hcheck

theorem bearing_start (h : s.start = .ok m) :
    m.bearing = ((⟨.blue, 1, s.limits, ⟨1, 0⟩⟩, none), ⟨⟨1, 0⟩, false⟩) := by
  rw [start_eq h]
  have hdealt := (Match.bearing_drawTimes .orange s.limits.startingHandSize
    (Play.drawTimes .blue s.limits.startingHandSize s.tableOf)).trans
      (Match.bearing_drawTimes .blue s.limits.startingHandSize s.tableOf)
  have hblue : ∀ m : Match, m.bearing = s.tableOf.bearing →
      (m.changeSeat .blue fun seat => { seat with energy := ⟨1, 1⟩ }).bearing =
        ((⟨.blue, 1, s.limits, ⟨1, 0⟩⟩, none), ⟨⟨1, 0⟩, false⟩) := by
    intro m hm
    have hclock : m.clock = s.tableOf.clock := Match.clock_of_bearing hm
    have hwinner : m.winner = s.tableOf.winner := congrArg (·.1.2) hm
    have hmeans : m.means = s.tableOf.means := Match.means_of_bearing hm
    change ((({ m.clock with totals := ⟨1, m.clock.totals.orange⟩ } : Clock), m.winner),
      ({ m.means with available := ⟨1, m.means.available.orange⟩ } : Means)) = _
    rw [hclock, hwinner, hmeans]
    rfl
  exact hblue _ hdealt

end MatchSetup

namespace Match
variable {m m' : Match} {depth : Nat} {c : Command} {trace : List Happening}

theorem inherited_timed : Inherited Timed where
  start s m h := by
    have hclock : m.clock = _ := congrArg (·.1.1) (MatchSetup.bearing_start h)
    have hlimits : m.limits = s.limits := congrArg Clock.limits hclock
    have hpositive : 0 < m.limits.maxEnergy := hlimits ▸ MatchSetup.maxEnergy_pos h
    refine ⟨hpositive, congrArg Clock.turnNumber hclock, fun c => ?_, fun _ => ?_, fun _ => ?_⟩
    · rw [← totals_clock, congrArg Clock.totals hclock]
      cases c with
      | blue => exact (Int.min_eq_right hpositive).symm
      | orange => exact (Int.min_eq_right (Int.le_of_lt hpositive)).symm
    · exact congrArg some (congrArg Clock.turn hclock).symm
    · exact .singleton _
  repeats m m' past hrepeats hm :=
    hm.of_clock (congrArg Prod.fst hrepeats.standing)
      (fun hnone => (congrArg Prod.snd hrepeats.standing).symm.trans hnone) rfl id
  errand _ _ _ h hcalm hs := hs.timely (.single h.deed) hcalm.timely
  conduct _ _ _ h hs := h.timed hs

/-- The number of the turn and the energy of the players go by the turns that have begun, and it is
the turn of who has begun the last one. As long as no turn ends while another one is ending the
players take turns, in a command that is thrown away as well, so that blue has the odd turns and
orange the even ones. -/
theorem Chronicle.turns_accounted (h : m.Chronicle past) :
    m.turnNumber = (turns past).length ∧
    (∀ c, (m.seat c).energy.total = min m.limits.maxEnergy ((turns past).count c)) ∧
    (m.winner = none → (turns past).head? = some m.turn) ∧
    (Orderly past → m.winner = none →
      (m.turn = .blue ↔ m.turnNumber % 2 = 1) ∧
      (m.seat .blue).energy.total = min m.limits.maxEnergy ((m.turnNumber + 1) / 2 : Nat) ∧
      (m.seat .orange).energy.total = min m.limits.maxEnergy (m.turnNumber / 2 : Nat)) ∧
    ∀ (depth : Nat) (c : Command) (m' : Match) (trace : List Happening),
      m.submitTraced depth c = .ok (m', trace) → Orderly (trace ++ past) →
      (turns (trace ++ past)).IsChain (· ≠ ·) := by
  have hm := inherited_timed.chronicle h
  refine ⟨hm.number, hm.total, hm.turn, fun horderly hnone => ?_, ?_⟩
  · obtain ⟨hodd, hblue, horange⟩ := count_of_alternating (hm.alternates horderly)
      List.getLast?_concat
    rw [hm.turn hnone, Option.some.injEq] at hodd
    rw [hm.total, hm.total, hm.number, hblue, horange]
    exact ⟨hodd, rfl, rfl⟩
  · intro depth c m' trace hc horderly
    obtain ⟨first, last, hundergoes⟩ := undergoes hc
    have htimely : Stage.Timely last ⟨last.game, trace⟩ :=
      Stage.Calm.timely ⟨rfl, hundergoes.beats⟩
    have hlast := inherited_timed.last hundergoes hm
    have halternates := hlast.alternates (htimely.orderly.1 horderly)
    rwa [← htimely.turns] at halternates

/-- Blue's card ends the turn, orange begins the second one and passes, and blue begins the
third. -/
theorem Chronicle.turns_accounted_solo :
    ∃ (m m' : Match) (past trace : List Happening), m.Chronicle past ∧ Orderly past ∧
      (m.turn = .blue ↔ m.turnNumber % 2 = 1) ∧ m.turnNumber = 2 ∧
      (m.seat .orange).energy.total = min m.limits.maxEnergy 1 ∧
      m.submitTraced maxDepth (.passTurn .orange) = .ok (m', trace) ∧
      turns (trace ++ past) = [.blue, .orange, .blue] ∧
      (turns (trace ++ past)).IsChain (· ≠ ·) := by
  have hrun : ((MatchSetup.solo [.endTurn]).start.holds fun m =>
      (m.submitTraced maxDepth .playSolo).holds fun x =>
        (x.1.refusal.isNone && x.1.pending.isNone && x.1.winner.isNone) &&
        (x.1.submitTraced maxDepth (.passTurn .orange)).holds fun y =>
          decide (Orderly (y.2 ++ x.2)) && decide (turns (y.2 ++ x.2) = [.blue, .orange, .blue]) &&
            decide (turns x.2 = [.orange, .blue])) = true := by
    decide +kernel
  obtain ⟨m, hstart, hrun⟩ := Outcome.exists_of_holds hrun
  obtain ⟨⟨m₁, past⟩, hplay, hrun⟩ := Outcome.exists_of_holds hrun
  obtain ⟨hidle, hrun⟩ := Bool.and_eq_true_iff.1 hrun
  obtain ⟨⟨m₂, trace⟩, hpass, hrun⟩ := Outcome.exists_of_holds hrun
  simp only [Bool.and_eq_true, Option.isNone_iff_eq_none, decide_eq_true_eq] at hidle hrun
  obtain ⟨⟨hrefusal, hpending⟩, hwinner⟩ := hidle
  obtain ⟨⟨horderly, hthree⟩, htwo⟩ := hrun
  have hpast : m₁.Chronicle past := by
    have hdone := Chronicle.done (.start hstart) hplay ⟨hrefusal, hpending⟩
    rwa [List.append_nil] at hdone
  have hbefore : Orderly past := horderly.of_suffix (List.suffix_append trace past)
  obtain ⟨hnumber, -, -, hparity, hchain⟩ := hpast.turns_accounted
  obtain ⟨hturn, -, horange⟩ := hparity hbefore hwinner
  have hnumber : m₁.turnNumber = 2 := by rw [hnumber, htwo]; rfl
  rw [hnumber] at horange
  exact ⟨m₁, m₂, past, trace, hpast, hbefore, hturn, hnumber, horange, hpass, hthree,
    hchain _ _ _ _ hpass horderly⟩

/-- Both cores answer the end of the turn of their player by ending it once more, for two turns.
Orange begins the second turn when the answer ends the turn, and the third one when blue's turn has
ended. -/
theorem two_turns_in_a_row :
    ∃ (m : Match) (past : List Happening), m.Chronicle past ∧ m.winner = none ∧
      m.turn = .orange ∧ m.turnNumber = 3 ∧ (m.seat .blue).energy.total = 1 ∧
      (m.seat .orange).energy.total = 2 ∧ turns past = [.orange, .orange, .blue] := by
  have hrun : ((MatchSetup.solo [.giveAbility (.piecesInPlay (.only .core)) (.setTrigger
      ⟨⟨.endOfTurn, .selfPlayer, .anyEvent, none⟩, [.endTurn], false, none⟩) (some 2)]).start.holds
      fun m => (m.submitTraced maxDepth .playSolo).holds fun x =>
        (x.1.refusal.isNone && x.1.pending.isNone) &&
        (x.1.submitTraced maxDepth (.passTurn .blue)).holds fun y =>
          (y.1.refusal.isNone && y.1.pending.isNone) &&
          decide (y.1.winner = none ∧ y.1.turn = .orange ∧ y.1.turnNumber = 3 ∧
            (y.1.seat .blue).energy.total = 1 ∧ (y.1.seat .orange).energy.total = 2 ∧
            turns (y.2 ++ x.2) = [.orange, .orange, .blue])) = true := by
    decide +kernel
  obtain ⟨m, hstart, hrun⟩ := Outcome.exists_of_holds hrun
  obtain ⟨⟨m₁, past⟩, hplay, hrun⟩ := Outcome.exists_of_holds hrun
  obtain ⟨hplayed, hrun⟩ := Bool.and_eq_true_iff.1 hrun
  obtain ⟨⟨m₂, trace⟩, hpass, hrun⟩ := Outcome.exists_of_holds hrun
  simp only [Bool.and_eq_true, Option.isNone_iff_eq_none, decide_eq_true_eq] at hplayed hrun
  obtain ⟨hpassed, hend⟩ := hrun
  have hdone := Chronicle.done (Chronicle.done (.start hstart) hplay hplayed) hpass hpassed
  rw [List.append_nil] at hdone
  exact ⟨m₂, trace ++ past, hdone, hend⟩

end Match
end HexDuel
