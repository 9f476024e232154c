import HexDuel.Library
import HexDuel.Proofs.Depth
import HexDuel.Proofs.Intact
import HexDuel.Proofs.Observance
import HexDuel.Proofs.Storage
import HexDuel.Script

/-!
How deeply effects cause one another. Where events can be ranked, so that what answers an event
calls forth only events of lower rank, every command comes to its end. Nothing asks for that, though:
a trigger may call forth its own event again, and such a cascade has no end, however far it is
followed.
-/

set_option autoImplicit false

namespace HexDuel

/-! ### Ranks -/

/-- How deep what answers each event goes, and what a card does that enters the board. -/
structure Ranking where
  heard : EventType → Nat
  placed : Nat
  /-- The highest rank of all. -/
  most : Nat
  heard_le : ∀ event, heard event ≤ most
  placed_le : placed ≤ most

namespace Ranking
variable (σ : Ranking)

/-- The actions go no deeper than that: each of their consequences goes less deep. -/
def Ends : Nat → List Action → Prop
  | 0, _ => False
  | depth + 1, actions => ∀ x ∈ consequencesOf actions,
    match x with
    | .event type => σ.heard type ≤ depth
    | .entry => σ.placed ≤ depth
    | .acts actions => Ends depth actions

variable {σ}

theorem Ends.succ {depth : Nat} {actions : List Action} (h : σ.Ends depth actions) :
    σ.Ends (depth + 1) actions := by
  induction depth generalizing actions with
  | zero => exact h.elim
  | succ depth ih =>
    intro x hx
    have hless := h x hx
    cases x with
    | event | entry => exact Nat.le_succ_of_le hless
    | acts => exact ih hless

theorem Ends.mono {depth depth' : Nat} (hle : depth ≤ depth') {actions : List Action}
    (h : σ.Ends depth actions) : σ.Ends depth' actions := by
  induction hle with
  | refl => exact h
  | step _ ih => exact ih.succ

variable (σ)

mutual

/-- Every trigger that it gives, at whatever remove, goes no deeper than its event allows, and what
players activate no deeper than all may. -/
def RanksAction : Action → Prop
  | .giveAbility _ ability _ => RanksSentence ability
  | .ifHolds _ actions => RanksActions actions
  | _ => True

def RanksActions : List Action → Prop
  | [] => True
  | a :: as => RanksAction a ∧ RanksActions as

def RanksSentence : Sentence → Prop
  | .actions actions => RanksActions actions
  | .setAbility ⟨_, effect, _⟩ => RanksEffect effect
  | .setTrigger ⟨spec, actions, _, _⟩ =>
    RanksActions actions ∧ σ.Ends (σ.heard spec.event) actions

def RanksEffect : PassiveEffect → Prop
  | .grant ability => RanksSentence ability
  | .activated _ actions => RanksActions actions ∧ σ.Ends (σ.most + 1) actions
  | _ => True

end

/-- All triggers are ranked. Objects that enter go no deeper than they may, and what players do goes
one level deeper than anything that it calls forth. -/
def creed : Creed where
  admits s := s.Fits ∧ σ.RanksSentence s
  enters type actions := (type.isPiece = true → σ.Ends σ.placed actions) ∧
    (type = .event → σ.Ends (σ.most + 1) actions)
  invokes actions := σ.Ends (σ.most + 1) actions

variable {σ}

theorem coherent_creed : σ.creed.Coherent where
  fits _ h := h.1
  head _ _ h := ⟨⟨h.1.1, trivial⟩, h.2.1, trivial⟩
  tail _ _ h := ⟨h.1.2, h.2.2⟩
  given _ _ _ h := ⟨h.1.1.2.1, h.2.1⟩
  branch _ _ h := ⟨h.1.1.2, h.2.1⟩
  ability _ _ _ h := ⟨⟨h.1.1, h.1.2.1, fun _ hn => nomatch hn⟩, h.2⟩
  trigger _ _ _ _ h := ⟨⟨h.1.1, h.1.2.1, fun _ hn => nomatch hn⟩, h.2⟩
  reaction _ _ _ _ h := ⟨h.1.2.1, h.2.1⟩
  granted _ _ _ h := ⟨h.1.2.1, h.2⟩
  activated _ _ _ _ h := ⟨⟨h.1.2.1, h.2.1⟩, h.2.2⟩

theorem bears {depth : Nat} {actions : List Action} (h : σ.Ends (depth + 1) actions) :
    ∀ x ∈ consequencesOf actions, σ.creed.Bears (σ.Ends depth) x := by
  intro x hx
  have hless := h x hx
  cases x with
  | event type =>
    rintro spec actions overrides hadmits rfl
    exact hadmits.2.2.mono hless
  | entry => exact fun type actions hpiece henters => (henters.1 hpiece).mono hless
  | acts => exact hless

theorem upholds_runner (σ : Ranking) (depth : Nat) :
    (Play.runner depth).Upholds σ.creed true (σ.Ends depth) := by
  induction depth with
  | zero => exact fun _ _ _ _ hends => hends.elim
  | succ depth ih =>
    exact fun ctx actions hctx hadmits hends =>
      ih.deeper coherent_creed ctx actions hctx hadmits (bears hends)

theorem within_creed {depth : Nat} (h : σ.most ≤ depth) : σ.creed.Within (σ.Ends depth) where
  hears event := by
    rintro spec actions overrides hadmits rfl
    exact hadmits.2.2.mono (Nat.le_trans (σ.heard_le _) h)
  places type actions hpiece henters :=
    (henters.1 hpiece).mono (Nat.le_trans σ.placed_le h)
  events actions henters := bears ((henters.2 rfl).mono (Nat.succ_le_succ h))
  invokes actions hinvokes := bears (hinvokes.mono (Nat.succ_le_succ h))

end Ranking

/-- Where triggers are ranked, every command comes to its end: followed to the highest rank or
deeper, its effects always lead to the same. -/
theorem Match.OfCreed.commands_end {σ : Ranking} {m : Match} (h : m.OfCreed σ.creed) {c : Command}
    (hc : c.Fits) :
    ∃ x, x ≠ .error .exhausted ∧ ∀ depth, σ.most ≤ depth → m.submitTraced depth c = x := by
  have hends : m.submitTraced σ.most c ≠ .error .exhausted := by
    have hleaves := (h.abides Ranking.coherent_creed).leaves_submitTraced Ranking.coherent_creed
      (Ranking.within_creed (Nat.le_refl σ.most)) (σ.upholds_runner σ.most) hc
    intro hexhausted
    rw [hexhausted] at hleaves
    exact hleaves rfl rfl
  exact ⟨_, hends, fun _ hle => Match.submitTraced_of_le hle hends⟩

/-- Followed to no greater depth than that, it did not come to an end. -/
def Outcome.isExhausted {α : Type} : Outcome α → Bool
  | .error .exhausted => true
  | _ => false

theorem Outcome.isExhausted_iff {α : Type} {x : Outcome α} :
    x.isExhausted = true ↔ x = .error .exhausted := by
  constructor
  · intro h
    unfold isExhausted at h
    split at h
    · rfl
    · cases h
  · rintro rfl
    rfl

/-- Damage calls forth destruction, and nothing else calls forth anything. -/
def Ranking.damageFirst : Ranking where
  heard
    | .afterDamageReceived => 2
    | _ => 1
  placed := 1
  most := 2
  heard_le event := by cases event <;> decide
  placed_le := by decide

/-- Blue's card has cores answer damage with the destruction of all robots, and damages a core. The
answer takes one step. -/
theorem Match.OfCreed.commands_end_solo :
    ∃ (m : Match) (x : Outcome (Match × List Happening)),
      m.OfCreed Ranking.damageFirst.creed ∧ m.submitTraced 0 .playSolo = .error .exhausted ∧
      x ≠ .error .exhausted ∧ ∀ depth, 2 ≤ depth → m.submitTraced depth .playSolo = x := by
  let actions : List Action := [
    .giveAbility (.piecesInPlay (.only .core)) (.setTrigger ⟨⟨.afterDamageReceived,
      .piecesInPlay (.only .core), .anyEvent, none⟩, [.destroy (.piecesInPlay (.only .robot))],
      false, none⟩) none,
    .dealDamage (.piecesMatching (.only .core) [.controlledBy .selfPlayer]) (.const 1)]
  have hrun : ((MatchSetup.solo actions).start.holds fun m =>
      (m.submitTraced 0 .playSolo).isExhausted) = true := by
    decide +kernel
  obtain ⟨m, hstart, hrun⟩ := Outcome.exists_of_holds hrun
  have hdeep : m.submitTraced 0 .playSolo = .error .exhausted := Outcome.isExhausted_iff.1 hrun
  have hfits : (Sentence.actions actions).Fits := by
    simp [actions, ActionsFit, Action.Fits, Target.Fits, ConditionsFit, Condition.Fits,
      Number.Fits, Sentence.Fits, TriggerPhrase.Fits, Fits32, Width.least32, Width.most32]
  have hranks : Ranking.damageFirst.RanksSentence (.actions actions) := by
    simp [actions, Ranking.RanksActions, Ranking.RanksAction, Ranking.RanksSentence, Ranking.Ends,
      consequencesOf, Action.consequences, Ranking.damageFirst]
  have hends : Ranking.damageFirst.Ends 3 actions := by
    simp [actions, Ranking.Ends, consequencesOf, Action.consequences, Ranking.damageFirst]
  have hm : m.OfCreed Ranking.damageFirst.creed :=
    .start (MatchSetup.abides_solo ⟨hfits, hranks⟩ ⟨by rintro ⟨⟩, fun _ => hends⟩) hstart
  have hcard : Command.playSolo.Fits := by rintro x ⟨⟩
  obtain ⟨x, hx, hall⟩ := hm.commands_end hcard
  exact ⟨m, x, hm, hdeep, hx, hall⟩

/-! ### Turns that do not end -/

/-- Whenever a turn ends, it ends the turn. -/
def Trigger.isEndless : Trigger → Bool
  | ⟨_, _, ⟨.endOfTurn, .allPlayers, .anyEvent, none⟩, [.endTurn], _, none, false⟩ => true
  | _ => false

/-- There are triggers, and they all are endless. -/
def Board.isEndless (b : Board) : Bool :=
  b.pieces.all (fun p => p.passives.isEmpty && p.triggers.all (·.isEndless)) &&
    b.ids.any fun id => (b.get? id).any (!·.triggers.isEmpty)

namespace Trigger

theorem isEndless_iff {t : Trigger} : t.isEndless = true ↔
    t.spec = ⟨.endOfTurn, .allPlayers, .anyEvent, none⟩ ∧ t.actions = [.endTurn] ∧
      t.duration = none ∧ t.disabled = false := by
  constructor
  · intro h
    unfold isEndless at h
    split at h
    · exact ⟨rfl, rfl, rfl, rfl⟩
    · cases h
  · obtain ⟨id, source, spec, actions, overrides, duration, disabled⟩ := t
    rintro ⟨rfl, rfl, rfl, rfl⟩
    rfl

theorem tick_of_isEndless {t : Trigger} (h : t.isEndless = true) : t.tick = some t := by
  obtain ⟨-, -, hduration, -⟩ := isEndless_iff.1 h
  unfold tick
  rw [hduration]
  obtain ⟨id, source, spec, actions, overrides, duration, disabled⟩ := t
  cases hduration
  rfl

end Trigger

namespace Board
variable {b : Board}

theorem isEndless_iff : b.isEndless = true ↔
    (∀ p ∈ b.pieces, p.passives = [] ∧ ∀ t ∈ p.triggers, t.isEndless = true) ∧
      ∃ id ∈ b.ids, ∃ p, b.get? id = some p ∧ p.triggers ≠ [] := by
  simp [isEndless, Option.any_eq_true]

/-- An answer for each trigger of the object. -/
def answers (b : Board) (id : PieceId) : List Answer :=
  match b.get? id with
  | none => []
  | some p => p.triggers.map (⟨id, p.owner, ·⟩)

theorem isEndless_mapPieces (h : b.isEndless = true) {f : Piece → Piece}
    (hf : ∀ p ∈ b.pieces, (f p).passives = p.passives ∧ (f p).triggers = p.triggers) :
    (b.mapPieces f).isEndless = true := by
  obtain ⟨hall, id, hid, p, hget, htriggers⟩ := isEndless_iff.1 h
  have hmem : p ∈ b.pieces := List.mem_map_of_mem (f := Prod.snd) (mem_of_get? hget)
  refine isEndless_iff.2 ⟨?_, id, ?_, f p, ?_, ?_⟩
  · rw [pieces_mapPieces]
    refine List.forall_mem_map.2 fun q hq => ?_
    rw [(hf q hq).1, (hf q hq).2]
    exact hall q hq
  · rwa [ids_mapPieces]
  · rw [get?_mapPieces, hget]
    rfl
  · rwa [(hf p hmem).2]

end Board

namespace Match
variable {m : Match}

theorem isEndless_endTurnOf (h : m.board.isEndless = true) (player : Color) :
    (m.changeBoard (·.mapPieces (·.endTurnOf player))).board.isEndless = true := by
  refine Board.isEndless_mapPieces h fun p _ => ?_
  unfold Piece.endTurnOf
  split <;> exact ⟨rfl, rfl⟩

/-- No ability runs out. -/
theorem isEndless_tickDurations (h : m.board.isEndless = true) :
    m.tickDurations.board.isEndless = true := by
  obtain ⟨hall, -⟩ := Board.isEndless_iff.1 h
  have hnone : (m.board.pieces.flatMap fun p => p.passives.filter (·.tick.isNone)) = [] :=
    List.flatMap_eq_nil_iff.2 fun p hp => by rw [(hall p hp).1]; rfl
  unfold tickDurations
  rw [hnone]
  refine Board.isEndless_mapPieces h fun p hp => ⟨?_, ?_⟩
  · show p.passives.filterMap (·.tick) = p.passives
    rw [(hall p hp).1]
    rfl
  · show p.triggers.filterMap (·.tick) = p.triggers
    rw [List.filterMap_congr fun t ht => Trigger.tick_of_isEndless ((hall p hp).2 t ht)]
    exact List.filterMap_some

end Match

namespace Play
variable {α β : Type}

/-- Wherever all triggers are endless, it gives up for depth. -/
def Stalls (p : Play α) : Prop :=
  ∀ s : Stage, s.game.board.isEndless = true → p.run s = .error .exhausted

namespace Stalls

theorem bind {p : Play α} {k : α → Play β} (hp : Stalls p) : Stalls (p >>= k) := by
  intro s hs
  rw [StateT.run_bind, hp s hs]
  rfl

theorem look {k : Match → Play α} (hk : ∀ m, Stalls (k m)) : Stalls (game >>= k) :=
  fun s hs => hk s.game s hs

theorem change {f : Match → Match} {k : Unit → Play α}
    (hf : ∀ m : Match, m.board.isEndless = true → (f m).board.isEndless = true)
    (hk : Stalls (k ())) : Stalls (Play.change f >>= k) :=
  fun s hs => hk ⟨f s.game, s.trace⟩ (hf s.game hs)

end Stalls

/-- The end of any turn is heard. -/
theorem run_hears (player : Color) (owner : PieceId) {t : Trigger} (h : t.isEndless = true)
    (s : Stage) : (hears (.ofPlayer .endOfTurn player) owner t).run s = .ok (true, s) := by
  obtain ⟨hspec, -⟩ := Trigger.isEndless_iff.1 h
  have hheard : (Occurrence.ofPlayer .endOfTurn player).isHeardBy
      (.players [s.game.turn, s.game.turn.opponent]) = true := by
    cases player <;> cases s.game.turn <;> rfl
  unfold hears
  rw [hspec]
  show Except.ok ((Occurrence.ofPlayer .endOfTurn player).isHeardBy
      (.players [s.game.turn, s.game.turn.opponent]), s) = _
  rw [hheard]

theorem run_answersAmong (player : Color) (owner : PieceId) (controller : Color) {ts : List Trigger}
    (h : ∀ t ∈ ts, t.isEndless = true) (s : Stage) :
    (answersAmong (.ofPlayer .endOfTurn player) owner controller ts).run s =
      .ok (ts.map (⟨owner, controller, ·⟩), s) := by
  induction ts with
  | nil => rfl
  | cons t ts ih =>
    obtain ⟨hfirst, hrest⟩ := List.forall_mem_cons.1 h
    unfold answersAmong
    rw [StateT.run_bind, run_hears player owner hfirst]
    show ((answersAmong (.ofPlayer .endOfTurn player) owner controller ts).run s >>= _) = _
    rw [ih hrest]
    rfl

/-- All triggers of the object answer. -/
theorem run_answersOf (player : Color) {s : Stage} (h : s.game.board.isEndless = true)
    (ids : List PieceId) : (answersOf (.ofPlayer .endOfTurn player) ids).run s =
      .ok (ids.flatMap s.game.board.answers, s) := by
  induction ids with
  | nil => rfl
  | cons id ids ih =>
    have hrest : ∀ found : List Answer,
        (do return found ++ (← answersOf (.ofPlayer .endOfTurn player) ids) : Play _).run s =
          .ok (found ++ ids.flatMap s.game.board.answers, s) := by
      intro found
      rw [StateT.run_bind, ih]
      rfl
    have hpiece : (piece? id).run s = .ok (s.game.board.get? id, s) := rfl
    rw [List.flatMap_cons]
    unfold answersOf Board.answers
    rw [StateT.run_bind, hpiece]
    cases hget : s.game.board.get? id with
    | none => exact hrest []
    | some p =>
      have hendless := ((Board.isEndless_iff.1 h).1 p
        (List.mem_map_of_mem (f := Prod.snd) (Board.mem_of_get? hget))).2
      have hall : (p.triggers.filter fun t => !t.disabled && t.spec.event == .endOfTurn) =
          p.triggers := by
        refine List.filter_eq_self.2 fun t ht => ?_
        obtain ⟨hspec, -, -, hdisabled⟩ := Trigger.isEndless_iff.1 (hendless t ht)
        rw [hspec, hdisabled]
        rfl
      show (answersAmong (.ofPlayer .endOfTurn player) id p.owner
        (p.triggers.filter fun t => !t.disabled && t.spec.event == .endOfTurn) >>= fun found => do
          return found ++ (← answersOf (.ofPlayer .endOfTurn player) ids) : Play _).run s = _
      rw [hall, StateT.run_bind, run_answersAmong player id p.owner hendless s]
      exact hrest _

variable {run : Runner}

theorem stalls_answers (hrun : ∀ ctx, Stalls (run ctx [.endTurn])) {answers : List Answer}
    (hsome : answers ≠ []) (h : ∀ a ∈ answers, a.trigger.isEndless = true)
    (ctx : Answer → Context) :
    Stalls (answers.forM fun a => run (ctx a) a.trigger.actions) := by
  cases answers with
  | nil => exact absurd rfl hsome
  | cons a rest =>
    have hfirst : Stalls (run (ctx a) a.trigger.actions) := by
      rw [(Trigger.isEndless_iff.1 (h a List.mem_cons_self)).2.1]
      exact hrun _
    exact hfirst.bind

theorem stalls_occur (hrun : ∀ ctx, Stalls (run ctx [.endTurn])) (player : Color) (ctx : Context) :
    Stalls (occur run (.ofPlayer .endOfTurn player) ctx (pure ())) := by
  intro s hs
  obtain ⟨hall, id, hid, p, hget, htriggers⟩ := Board.isEndless_iff.1 hs
  have hsome : s.game.board.ids.flatMap s.game.board.answers ≠ [] := by
    have hanswers : s.game.board.answers id = p.triggers.map (⟨id, p.owner, ·⟩) := by
      rw [Board.answers, hget]
    intro hnil
    have hnone := List.flatMap_eq_nil_iff.1 hnil id hid
    rw [hanswers, List.map_eq_nil_iff] at hnone
    exact htriggers hnone
  have hendless : ∀ a ∈ s.game.board.ids.flatMap s.game.board.answers,
      a.trigger.isEndless = true := by
    intro a ha
    obtain ⟨k, _, hmem⟩ := List.mem_flatMap.1 ha
    unfold Board.answers at hmem
    split at hmem
    · cases hmem
    · rename_i q hq
      obtain ⟨t, ht, rfl⟩ := List.mem_map.1 hmem
      exact (hall q (List.mem_map_of_mem (f := Prod.snd) (Board.mem_of_get? hq))).2 t ht
  have hanswers := stalls_answers hrun hsome hendless fun a =>
    (Occurrence.ofPlayer .endOfTurn player).context a.owner a.controller a.trigger ctx.interactive
  have hrest : ∀ overridden : Bool, Stalls (do
      if !overridden then pure ()
      (s.game.board.ids.flatMap s.game.board.answers).forM fun a =>
        run ((Occurrence.ofPlayer .endOfTurn player).context a.owner a.controller a.trigger
          ctx.interactive) a.trigger.actions) := by
    intro overridden
    cases overridden <;> exact hanswers
  have hoccur : (occur run (.ofPlayer .endOfTurn player) ctx (pure ())).run s =
      (do
        let answers ← answersOf (.ofPlayer .endOfTurn player) s.game.board.ids
        if !answers.any (·.trigger.overrides) then pure ()
        answers.forM fun a =>
          run ((Occurrence.ofPlayer .endOfTurn player).context a.owner a.controller a.trigger
            ctx.interactive) a.trigger.actions : Play Unit).run s := rfl
  rw [hoccur, StateT.run_bind, run_answersOf player hs]
  exact hrest _ s hs

theorem stalls_endTurn (hrun : ∀ ctx, Stalls (run ctx [.endTurn])) : Stalls (endTurn run) := by
  refine .look fun m => ?_
  have hrest : Stalls (do
      change (·.changeBoard (·.mapPieces (·.endTurnOf m.turn)))
      change (·.tickDurations)
      occur run (.ofPlayer .endOfTurn m.turn) .empty (pure ())
      change (·.checkVictory)
      change fun m' => { m' with turn := m.turn.opponent }) := by
    refine .change (fun _ h => Match.isEndless_endTurnOf h m.turn) ?_
    refine .change (fun _ h => Match.isEndless_tickDurations h) ?_
    exact (stalls_occur hrun m.turn .empty).bind
  intro s hs
  exact hrest ⟨(s.game.setSelection m.turn .none).setStatus m.turn "",
    .turnEnded m.turn :: s.trace⟩ hs

/-- However deep it is followed, the end of a turn that ends the turn comes to nothing. -/
theorem stalls_runner (depth : Nat) (ctx : Context) : Stalls (runner depth ctx [.endTurn]) := by
  induction depth generalizing ctx with
  | zero => exact fun _ _ => rfl
  | succ depth ih =>
    have hturn : Stalls (passTurn (runner depth)) := (stalls_endTurn ih).bind
    have hlift : (Resolving.execute (runner depth) .endTurn).run ctx =
        passTurn (runner depth) >>= fun x => pure (x, ctx) := rfl
    have hexecute : Stalls ((Resolving.execute (runner depth) .endTurn).run ctx) := by
      rw [hlift]
      exact hturn.bind
    have hrest : Stalls ((do
        Resolving.execute (runner depth) .endTurn
        (reapply : Play Unit)
        Resolving.executeAll (runner depth) [] : Resolving Unit).run ctx) := by
      rw [StateT.run_bind]
      exact hexecute.bind
    have hacts : Stalls ((Resolving.executeAll (runner depth) [.endTurn]).run ctx) :=
      fun s hs => hrest ⟨s.game, .executed .endTurn :: s.trace⟩ hs
    have hrun : runner (depth + 1) ctx [.endTurn] =
        (Resolving.executeAll (runner depth) [.endTurn]).run ctx >>= fun x => pure x.1 := rfl
    rw [hrun]
    exact hacts.bind

end Play

/-- A turn whose end ends the turn is never over, however deeply its effects are followed. -/
theorem Match.submitTraced_endless {m : Match} (h : m.board.isEndless = true)
    (hover : m.isOver = false) (hpending : m.pending = none) (depth : Nat) :
    m.submitTraced depth (.passTurn m.turn) = .error .exhausted := by
  have hturn : (do
      Play.passTurn (Play.runner depth)
      Play.settle (Play.runner depth) : Play Unit).run ⟨m.heard, []⟩ = .error .exhausted :=
    (Play.stalls_endTurn (Play.stalls_runner depth)).bind.bind ⟨m.heard, []⟩ h
  have hopen : m.heard.isOver = false := hover
  have hasked : m.heard.pending.isSome = false :=
    Option.isSome_eq_false_iff.2 (by simp [heard, hpending])
  have hmover : (Command.passTurn m.turn).player = m.heard.turn := rfl
  unfold submitTraced
  simp only [hopen, hasked, Bool.false_eq_true, if_false]
  rw [if_neg (not_not_intro hmover)]
  show m.heard.endOfTurn depth = _
  simp only [endOfTurn, hturn]
  rfl

/-- An event that has the player's core end the turn whenever a turn ends. -/
def CardEntry.perpetual : CardEntry where
  name := "Perpetual"
  type := .event
  cost := 1
  stats := none
  text := ""
  sentences := [.actions [.giveAbility (.piecesMatching (.only .core) [.controlledBy .selfPlayer])
    (.setTrigger ⟨⟨.endOfTurn, .allPlayers, .anyEvent, none⟩, [.endTurn], false, none⟩) none]]
  origin := .builtin

/-- Blue brings one card of that name. -/
def ScriptSetup.single (name : String) : ScriptSetup where
  usernames := ⟨"blue", "orange"⟩
  decks := ⟨[name], []⟩
  format := .normal
  limits := .standard
  seed := 0
  viewpoint := .blue

theorem CardEntry.perpetual_fits : CardEntry.perpetual.Fits where
  cost := ⟨by decide, by decide⟩
  stats _ h := nomatch h
  sentences := by
    simp [perpetual, Sentence.Fits, ActionsFit, Action.Fits, Target.Fits, ConditionsFit,
      Condition.Fits, TriggerPhrase.Fits]

theorem exists_of_any {ε α : Type} {x : Except ε α} {test : α → Bool}
    (h : x.toOption.any test = true) : ∃ a, x = .ok a ∧ test a = true := by
  cases x with
  | ok a => exact ⟨a, rfl, h⟩
  | error e => cases h

/-- Blue plays the event and passes, and the turn never ends. -/
theorem Match.turn_without_end :
    ∃ (text : String) (l : Library) (s : MatchSetup) (m m' : Match),
      Library.parse text = .ok l ∧ (ScriptSetup.single "Perpetual").build l = .ok s ∧
      s.start = .ok m ∧ m.submit (.playCard .blue "blue/Perpetual#1" none) = .ok m' ∧
      m'.refusal = none ∧
      ∀ depth, m'.submitTraced depth (.passTurn .blue) = .error .exhausted := by
  have hrun : ((Library.ofEntries [.perpetual]).toOption.any fun l =>
      ((ScriptSetup.single "Perpetual").build l).toOption.any fun s => s.start.holds fun m =>
        (m.submit (.playCard .blue "blue/Perpetual#1" none)).holds fun m' =>
          m'.refusal.isNone && m'.board.isEndless && !m'.isOver && m'.pending.isNone &&
            m'.turn == .blue) = true := by
    decide +kernel
  obtain ⟨l, hentries, hrun⟩ := exists_of_any hrun
  obtain ⟨s, hbuild, hrun⟩ := exists_of_any hrun
  obtain ⟨m, hstart, hrun⟩ := Outcome.exists_of_holds hrun
  obtain ⟨m', hplay, hrun⟩ := Outcome.exists_of_holds hrun
  simp only [Bool.and_eq_true, Bool.not_eq_true', Option.isNone_iff_eq_none, beq_iff_eq] at hrun
  obtain ⟨⟨⟨⟨hrefusal, hendless⟩, hover⟩, hpending⟩, hturn⟩ := hrun
  have hparse := Library.parse_compact (List.forall_mem_singleton.2 CardEntry.perpetual_fits)
    (by decide +kernel)
  refine ⟨_, l, s, m, m', hparse.trans hentries, hbuild, hstart, hplay, hrefusal, fun depth => ?_⟩
  rw [← hturn]
  exact submitTraced_endless hendless hover hpending depth

end HexDuel
