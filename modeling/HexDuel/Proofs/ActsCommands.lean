import HexDuel.Proofs.ActsEffects

/-!
Commands that are not refused go by acts, and so does the end of a turn. A card is paid for with
what its player has left, and an object that attacks first comes to where it strikes from.
-/

set_option autoImplicit false

namespace HexDuel

/-- Where cards can be placed goes by the board alone. -/
theorem Match.placementHexes_congr {m m' : Match} (h : m'.board = m.board) (player : Color)
    (type : CardType) : m'.placementHexes player type = m.placementHexes player type := by
  unfold placementHexes
  rw [h]

namespace Attempt
variable {α β : Type}

/-- Each run that is not refused is an act. -/
def Goes (a : Attempt α) : Prop := ∀ s x s', a.run.run s = .ok (.ok x, s') → Conduct s s'

theorem of_run_lift {p : Play α} {s s' : Stage} {a : α}
    (h : (liftM p : Attempt α).run.run s = .ok (.ok a, s')) : p.run s = .ok (a, s') := by
  have h : (p >>= fun a => Pure.pure (Except.ok a)).run s = .ok (.ok a, s') := h
  obtain ⟨b, s₁, hrun, hrest⟩ := Play.run_bind h
  cases hrest
  exact hrun

theorem run_bind {a : Attempt α} {k : α → Attempt β} {s s' : Stage} {y : β}
    (h : (a >>= k).run.run s = .ok (.ok y, s')) :
    ∃ x s₁, a.run.run s = .ok (.ok x, s₁) ∧ (k x).run.run s₁ = .ok (.ok y, s') := by
  rw [ExceptT.run_bind] at h
  obtain ⟨x, s₁, hfirst, hrest⟩ := Play.run_bind h
  cases x with
  | ok x => exact ⟨x, s₁, hfirst, hrest⟩
  | error r => cases hrest

/-- What follows a look at the match is a run from the same stage, rejected or not. -/
theorem of_run_look {k : Match → Attempt β} {s : Stage} {x : Except Rejection β × Stage}
    (h : (game >>= k).run.run s = .ok x) : (k s.game).run.run s = .ok x := h

namespace Goes

theorem lift {p : Play α} (h : Play.Goes Conduct p) : Goes (liftM p : Attempt α) :=
  fun _ _ _ hrun => h.conduct (of_run_lift hrun)

theorem pure (a : α) : Goes (Pure.pure a) := lift (.pure a)

theorem refuse (r : Rejection) : Goes (refuse r : Attempt α) := by
  intro s x s' h
  cases h

theorem next {a : Attempt α} {k : α → Attempt β} (ha : Goes a) (hk : ∀ x, Goes (k x)) :
    Goes (a >>= k) := by
  intro s y s' h
  obtain ⟨x, s₁, hfirst, hrest⟩ := run_bind h
  exact (ha s x s₁ hfirst).trans (hk x s₁ y s' hrest)

theorem look {k : Match → Attempt α} (hk : ∀ m, Goes (k m)) : Goes (game >>= k) :=
  fun s x s' h => hk s.game s x s' h

theorem turnover {f : Match → Match} (hf : Turnover f) (hfrugal : ∀ s : Stage, s.Frugal (s.map f)) :
    Goes (Attempt.change f) := lift (Play.acts_turnover hf hfrugal)

theorem exert (id : PieceId) {x : Exertion} {f : Piece → Piece} (hmarks : x.Marks f) :
    Goes (Attempt.change (·.changePiece id f)) :=
  lift (Play.Goes.change fun _ => .delay (.exert id hmarks))

end Goes

theorem goes_ownPieceAt (player : Color) (hex : Hex) : Goes (ownPieceAt player hex) := by
  refine .look fun m => ?_
  split
  · split
    · exact .pure _
    · exact .refuse _
  · exact .refuse _

/-- Who pays has that much less. -/
theorem paid_of_run {player : Color} {cost : Int} {x : Unit} {s s' : Stage}
    (h : (pay player cost).run.run s = .ok (.ok x, s')) :
    s' = s.map (·.changeSeat player
      (·.setAvailable ((s.game.seat player).energy.available - cost))) := by
  have hrest := of_run_look h
  obtain ⟨available, s₂, hlift, hchange⟩ := run_bind hrest
  obtain ⟨havailable, rfl⟩ := Play.of_run_lift (of_run_lift hlift)
  obtain rfl := (Outcome.int32_eq_ok_iff.1 havailable).1
  cases hchange
  rfl

theorem conduct_pay {player : Color} {cost : Int} {x : Unit} {s s' : Stage}
    (hcost : cost ≤ (s.game.seat player).energy.available)
    (h : (pay player cost).run.run s = .ok (.ok x, s')) : Conduct s s' := by
  rw [paid_of_run h]
  exact .fund player (by omega)

theorem goes_log (player : Option Color) (text : String) (cards : List Card) :
    Goes (change (·.addLog player text cards)) := .lift (Play.acts_log player text cards)

theorem goes_walk (id : PieceId) (start goal : Hex) : Play.Goes Conduct (walk id start goal) := by
  intro s a s' h
  cases Play.walked_of_run h with
  | barred | gone => exact .refl
  | walked hhexes hgoal hp =>
    exact .single (.errand (.walk id _ hhexes hgoal) ⟨⟨rfl, rfl⟩, rfl⟩
      (.piece id fun _ => .of_eq rfl rfl rfl) (.walk goal hp (by omega)))

/-! ### Cards that are played -/

/-- What an event that has been paid for comes to: it is announced and resolved. -/
def announcement (run : Runner) (player : Color) (card : Card) : Attempt Context := do
  change (·.playSound "event.wav")
  change (·.addLog (some player) s!"played {card.mention}" [card])
  let (_, ctx) ← ((resolveEvent run card card.sentences).run (.command player) : Play _)
  return ctx

/-- The rest of it: the card is put away, and answers to it are carried out. -/
def conclusion (run : Runner) (player : Color) (card : Card) (ctx : Context) : Attempt Unit := do
  match ((← game).seat player).cardInHand? card.id with
  | some played => do
    change (·.dropFromHand player card.id)
    change (·.discard player played.reset)
  | none => pure ()
  change fun m => { m with eventResolving := false }
  Play.occur run ((Occurrence.ofPlayer .afterCardPlay player).withCard card) ctx (pure ())

theorem playEvent_eq (run : Runner) (player : Color) (card : Card) (cost : Int) :
    playEvent run player card cost = (do
      change fun m => { m with eventResolving := true }
      pay player cost
      let ctx ← announcement run player card
      conclusion run player card ctx) := by
  have hassoc : (do
      change fun m => { m with eventResolving := true }
      pay player cost
      let ctx ← announcement run player card
      conclusion run player card ctx) = playEvent run player card cost := by
    unfold announcement
    simp only [bind_assoc, pure_bind]
    rfl
  exact hassoc.symm

/-- What a card that has been paid for comes to on the board. -/
def arrival (run : Runner) (player : Color) (card : Card) (hex : Hex) : Attempt Unit := do
  match ((← game).seat player).cardInHand? card.id with
  | none => refuse .cardNotInHand
  | some card => do
    change (·.dropFromHand player card.id)
    let ctx := Context.command player
    match ← (Play.placeCard run card hex player true ctx : Play _) with
    | none => refuse (.illegalPlacement hex)
    | some id => do
      change (·.addLog (some player) s!"played {card.mention}" [card])
      Play.occur run ((Occurrence.ofPlayer .afterCardPlay player).withCard card) ctx (pure ())
      change (·.changePiece id (·.arrive))

theorem playPiece_eq (run : Runner) (player : Color) (card : Card) (cost : Int) (hex : Hex) :
    playPiece run player card cost hex = (do
      if !((← game).placementHexes player card.type).contains hex then
        refuse (.illegalPlacement hex)
      else do
        pay player cost
        arrival run player card hex) := rfl

end Attempt

/-- What is shown of a move or a strike. -/
def Stage.shows (s : Stage) (a : Animation) (sound : String) : Stage :=
  s.map fun m => (m.animate a).playSound sound

theorem Stage.conduct_shows (s : Stage) (a : Animation) (sound : String) :
    Conduct s (s.shows a sound) := by
  have hanimated : Conduct s (s.map (·.animate a)) :=
    (Play.acts_turnover (.animate a) fun _ => .of_bearing rfl).conduct rfl
  exact hanimated.trans ((Play.acts_turnover (.playSound sound) fun _ => .of_bearing rfl).conduct rfl)

/-- The player has the card in hand, and enough left to pay for it. -/
structure Stage.Affords (s : Stage) (player : Color) (id : CardId) (card : Card) (cost : Int) :
    Prop where
  held : (s.game.seat player).cardInHand? id = some card
  price : card.effectiveCost = .ok cost
  enough : cost ≤ (s.game.seat player).energy.available

namespace Attempt

/-- The card is paid for, and only then anything comes of it. -/
inductive Played (run : Runner) (player : Color) (card : Card) (cost : Int) (hex : Option Hex)
    (s paid s' : Stage) : Prop where
  | event {ctx : Context} {resolved : Stage} : card.type = .event →
    (pay player cost).run.run (s.resolving true) = .ok (.ok (), paid) →
    (announcement run player card).run.run paid = .ok (.ok ctx, resolved) →
    (conclusion run player card ctx).run.run resolved = .ok (.ok (), s') →
    Played run player card cost hex s paid s'
  | piece {goal : Hex} : hex = some goal → goal ∈ s.game.placementHexes player card.type →
    (pay player cost).run.run s = .ok (.ok (), paid) →
    (arrival run player card goal).run.run paid = .ok (.ok (), s') →
    Played run player card cost hex s paid s'

/-- An event that the player can pay for is paid for and resolved, up to that stage. -/
inductive Resolves (run : Runner) (player : Color) (id : CardId) (s resolved : Stage) : Prop where
  | event {card : Card} {cost : Int} {ctx : Context} {paid : Stage} :
    s.Affords player id card cost → card.type = .event →
    (pay player cost).run.run (s.resolving true) = .ok (.ok (), paid) →
    (announcement run player card).run.run paid = .ok (.ok ctx, resolved) →
    Resolves run player id s resolved

/-- What is performed is conduct, but for an event, which is put away once it is resolved, and for
an object, which is being played until all that follows from it is done. -/
inductive Performs (run : Runner) (player : Color) (s : Stage) : Resumption → Stage → Prop where
  | conduct {resumption : Resumption} {s' : Stage} : Conduct s s' →
    Performs run player s resumption s'
  | piece {id : CardId} {hex : Option Hex} {paid placed settled s' : Stage} : Conduct s paid →
    paid.Lands placed → Conduct placed settled → Conduct (settled.arrived placed) s' →
    Performs run player s (.playCard id hex) s'
  | event {id : CardId} {hex : Option Hex} {resolved shelved s' : Stage} :
    Resolves run player id s resolved → resolved.Shelves player id shelved →
    Conduct (shelved.resolving false) s' → Performs run player s (.playCard id hex) s'

theorem Performs.next {run : Runner} {player : Color} {resumption : Resumption} {s s' s'' : Stage}
    (h : Performs run player s resumption s') (h' : Conduct s' s'') :
    Performs run player s resumption s'' := by
  cases h with
  | conduct h => exact .conduct (h.trans h')
  | piece hpaid hlands hsettled h => exact .piece hpaid hlands hsettled (h.trans h')
  | event hresolves hshelved h => exact .event hresolves hshelved (h.trans h')

/-! ### Moves and strikes -/

section Objects

variable {run : Runner} {player : Color} {start goal target stand : Hex} {s s' : Stage}

theorem owned_of_run {hex : Hex} {p : Piece}
    (h : (ownPieceAt player hex).run.run s = .ok (.ok p, s')) :
    s.game.board.pieceAt? hex = some p ∧ p.owner = player ∧ s' = s := by
  have hrest := of_run_look h
  split at hrest
  · rename_i q hq
    split at hrest
    · rename_i howner
      cases hrest
      exact ⟨hq, howner, rfl⟩
    · cases hrest
  · cases hrest

/-- Who moves owns the object. Once it has walked the move is shown, and then what follows from it
comes about. -/
theorem walk_of_movePiece (h : (movePiece run player start goal).run.run s = .ok (.ok (), s')) :
    ∃ (p : Piece) (walked : Stage), s.game.board.pieceAt? start = some p ∧ p.owner = player ∧
      Play.Walked p.id start goal s true walked ∧
      (Play.occur run (.ofPiece .afterMove p.id) (.command player) (Pure.pure ())).run
        (walked.shows (.move start goal) "move.wav") = .ok ((), s') := by
  obtain ⟨p, s₁, hown, hrest⟩ := run_bind h
  obtain ⟨hp, howner, rfl⟩ := owned_of_run hown
  obtain ⟨moved, walked, hwalk, hrest⟩ := run_bind hrest
  have hwalked := Play.walked_of_run (of_run_lift hwalk)
  split at hrest
  · rename_i hmoved
    rw [hmoved] at hwalked
    obtain ⟨_, s₂, hshown, hrest⟩ := run_bind hrest
    cases hshown
    obtain ⟨_, s₃, hheard, hrest⟩ := run_bind hrest
    cases hheard
    exact ⟨p, walked, hp, howner, hwalked, of_run_lift hrest⟩
  · cases hrest

/-- What is done with a strike: nothing when the attacker is gone, and nothing but to mark it when
the defender is. -/
inductive Strikes (run : Runner) (player : Color) (attacker defender : PieceId)
    (stand target : Hex) (s : Stage) : Stage → Prop where
  | idle : s.game.board.get? attacker = none → Strikes run player attacker defender stand target s s
  | vain : Strikes run player attacker defender stand target s
      (s.map (·.changePiece attacker (·.struck)))
  | blow {o : Occurrence} {text : String} {cards : List Card} {s' : Stage} :
    (Play.occur run o (.command player) (combat run attacker defender (.command player))).run
      (((s.map (·.changePiece attacker (·.struck))).shows (.attack stand target) "attack.wav").map
        (·.addLog none text cards)) = .ok ((), s') →
    Strikes run player attacker defender stand target s s'

theorem strikes_of_strike {attacker defender : PieceId}
    (h : (strike run player attacker defender stand target).run.run s = .ok (.ok (), s')) :
    Strikes run player attacker defender stand target s s' := by
  have hrest := of_run_look h
  split at hrest
  · rename_i hgone
    cases hrest
    exact .idle hgone
  · obtain ⟨_, s₁, hstruck, hrest⟩ := run_bind hrest
    cases hstruck
    have hrest := of_run_look hrest
    split at hrest
    · cases hrest
      exact .vain
    · obtain ⟨_, s₂, hshown, hrest⟩ := run_bind hrest
      cases hshown
      obtain ⟨_, s₃, hheard, hrest⟩ := run_bind hrest
      cases hheard
      obtain ⟨_, s₄, htold, hrest⟩ := run_bind hrest
      cases htold
      exact .blow (of_run_lift hrest)

/-- The object is next to its target, or it moves first. -/
inductive Approaches (run : Runner) (player : Color) (start target : Hex) (s : Stage) :
    Hex → Stage → Prop where
  | near : s.game.stepBeforeAttack start target = .ok none →
    Approaches run player start target s start s
  | afar {stand : Hex} {mid : Stage} : s.game.stepBeforeAttack start target = .ok (some stand) →
    (movePiece run player start stand).run.run s = .ok (.ok (), mid) →
    Approaches run player start target s stand mid

/-- Who attacks comes to where it strikes from, and strikes. -/
theorem approached_of_attackPiece
    (h : (attackPiece run player start target).run.run s = .ok (.ok (), s')) :
    ∃ (a : Piece) (hexes : List Hex) (defender : PieceId) (stand : Hex) (mid : Stage),
      s.game.board.pieceAt? start = some a ∧ a.owner = player ∧
      s.game.attackHexes start = .ok hexes ∧ target ∈ hexes ∧
      s.game.board.idAt? target = some defender ∧
      Approaches run player start target s stand mid ∧
      Strikes run player a.id defender stand target mid s' := by
  obtain ⟨a, s₁, hown, hrest⟩ := run_bind h
  obtain ⟨ha, howner, rfl⟩ := owned_of_run hown
  have hrest := of_run_look hrest
  obtain ⟨hexes, s₂, hlift, hrest⟩ := run_bind hrest
  obtain ⟨hhexes, rfl⟩ := Play.of_run_lift (of_run_lift hlift)
  split at hrest
  · cases hrest
  · rename_i hreached
    have hreached : target ∈ hexes := by simpa using hreached
    split at hrest
    · cases hrest
    · rename_i defender hdefender
      obtain ⟨step, s₃, hlift, hthen⟩ := run_bind hrest
      obtain ⟨hstep, rfl⟩ := Play.of_run_lift (of_run_lift hlift)
      split at hthen
      · exact ⟨a, hexes, defender, start, _, ha, howner, hhexes, hreached, hdefender, .near hstep,
          strikes_of_strike hthen⟩
      · rename_i stand
        obtain ⟨_, mid, hmove, hstrike⟩ := run_bind hthen
        exact ⟨a, hexes, defender, stand, mid, ha, howner, hhexes, hreached, hdefender,
          .afar hstep hmove, strikes_of_strike hstrike⟩

end Objects

section Running

variable {run : Runner} (hrun : run.Goes)
include hrun

theorem goes_occur (o : Occurrence) (ctx : Context) {byDefault : Play Unit}
    (hdefault : Play.Goes Conduct byDefault) :
    Goes (liftM (Play.occur run o ctx byDefault)) := .lift (Play.goes_occur hrun o ctx hdefault)

theorem goes_resolveEvent (hquiet : run.Built false) (card : Card) (sentences : List Sentence) :
    Resolving.Goes Conduct (resolveEvent run card sentences) := by
  induction sentences with
  | nil => exact .pure _
  | cons s rest ih =>
    cases s with
    | actions actions => exact (Resolving.goes_executeAll hrun hquiet actions).next fun _ => ih
    | _ => exact .fail _

theorem goes_announcement (hquiet : run.Built false) (player : Color) (card : Card) :
    Goes (announcement run player card) :=
  Goes.next (.turnover (.playSound _) fun _ => .of_bearing rfl) fun _ =>
    (goes_log _ _ _).next fun _ =>
      Goes.next (.lift (goes_resolveEvent hrun hquiet card _ _)) fun x => .pure x.2

/-- An event is paid for with what its player has left. -/
theorem Resolves.conduct (hquiet : run.Built false) {player : Color} {id : CardId}
    {s resolved : Stage} (h : Resolves run player id s resolved) :
    Conduct (s.resolving true) resolved := by
  obtain ⟨hcan, -, hpay, hannounced⟩ := h
  have hpaid : Conduct (s.resolving true) _ := conduct_pay hcan.enough hpay
  exact hpaid.trans (goes_announcement hrun hquiet player _ _ _ _ hannounced)

theorem Performs.venture (hquiet : run.Built false) {player : Color} {resumption : Resumption}
    {s s' : Stage} (h : Performs run player s resumption s') : Venture s s' := by
  cases h with
  | conduct h => exact .conduct h
  | piece hpaid hlands hsettled h => exact .piece hpaid hlands hsettled h
  | event hresolves hshelved h => exact .event (hresolves.conduct hrun hquiet) hshelved h

/-- After an event its card is put away, if it is still in the hand. -/
theorem shelved_of_conclusion {player : Color} {card : Card} {ctx : Context} {x : Unit}
    {s s' : Stage} (h : (conclusion run player card ctx).run.run s = .ok (.ok x, s')) :
    ∃ shelved, s.Shelves player card.id shelved ∧ Conduct (shelved.resolving false) s' := by
  have hrest : ∀ shelved : Stage, (do
      change fun m => { m with eventResolving := false }
      Play.occur run ((Occurrence.ofPlayer .afterCardPlay player).withCard card) ctx
        (Pure.pure ()) : Attempt Unit).run.run shelved = .ok (.ok x, s') →
      Conduct (shelved.resolving false) s' := by
    intro shelved hrest
    obtain ⟨_, _, hflag, hoccur⟩ := run_bind hrest
    cases hflag
    exact goes_occur hrun _ ctx (.pure ()) _ _ _ hoccur
  have hend := of_run_look h
  split at hend
  · rename_i played hheld
    obtain ⟨_, s₁, hdrop, hend⟩ := run_bind hend
    cases hdrop
    obtain ⟨_, s₂, hdiscard, hend⟩ := run_bind hend
    cases hdiscard
    exact ⟨_, .spent hheld, hrest _ hend⟩
  · rename_i hgone
    exact ⟨s, .gone hgone, hrest s hend⟩

theorem landed_of_arrival {player : Color} {card : Card} {hex : Hex} {x : Unit} {s s' : Stage}
    (hin : hex ∈ s.game.placementHexes player card.type)
    (h : (arrival run player card hex).run.run s = .ok (.ok x, s')) :
    ∃ placed settled, s.Lands placed ∧ Conduct placed settled ∧ s' = settled.arrived placed := by
  have hrest := of_run_look h
  split at hrest
  · cases hrest
  · rename_i held hheld
    obtain ⟨_, s₁, hdrop, hrest⟩ := run_bind hrest
    cases hdrop
    obtain ⟨r, s₁, hplace, hrest⟩ := run_bind hrest
    obtain ⟨rfl, rfl⟩ | ⟨rfl, htakes, hafter⟩ := Play.placed_of_run hrun (of_run_lift hplace)
    · cases hrest
    · obtain ⟨_, s₂, hlog, hrest⟩ := run_bind hrest
      obtain ⟨_, s₃, hoccur, hrest⟩ := run_bind hrest
      cases hrest
      have hid : held.id = card.id := by simpa using List.find?_some hheld
      have hafter := hafter.trans (goes_log _ _ _ _ _ _ hlog)
      exact ⟨_, s₃, .land (hid ▸ hheld) ⟨htakes.onBoard, htakes.free, htakes.unused⟩ hin,
        hafter.trans (goes_occur hrun _ _ (.pure ()) _ _ _ hoccur), rfl⟩

omit hrun in
/-- What becomes of a card that is played: it is in the hand, and there is enough left to pay for
it. -/
theorem played_of_run {player : Color} {id : CardId} {hex : Option Hex} {x : Unit} {s s' : Stage}
    (h : (playCard run player id hex).run.run s = .ok (.ok x, s')) :
    ∃ card cost paid, s.Affords player id card cost ∧
      Played run player card cost hex s paid s' := by
  have hrest := of_run_look h
  dsimp only at hrest
  split at hrest
  · cases hrest
  · rename_i card hheld
    obtain ⟨cost, s₁, hlift, hrest⟩ := run_bind hrest
    obtain ⟨hcost, rfl⟩ := Play.of_run_lift (of_run_lift hlift)
    split at hrest
    · cases hrest
    · rename_i henough
      have hcan : s₁.Affords player id card cost := ⟨hheld, hcost, Int.not_lt.1 henough⟩
      split at hrest
      · rw [playEvent_eq] at hrest
        obtain ⟨_, s₂, hflag, hrest⟩ := run_bind hrest
        cases hflag
        obtain ⟨_, paid, hpay, hrest⟩ := run_bind hrest
        obtain ⟨ctx, resolved, hannounced, hconclusion⟩ := run_bind hrest
        exact ⟨card, cost, paid, hcan, .event ‹card.type = .event› hpay hannounced hconclusion⟩
      · cases hrest
      · rw [playPiece_eq] at hrest
        have hrest := of_run_look hrest
        split at hrest
        · cases hrest
        · rename_i hplacement
          obtain ⟨_, paid, hpay, hrest⟩ := run_bind hrest
          exact ⟨card, cost, paid, hcan, .piece rfl (by simpa using hplacement) hpay hrest⟩
      · cases hrest

/-- An object comes to a cell that was looked at before it was paid for, which changes no cell. -/
theorem performs_playCard {player : Color} {id : CardId}
    {hex : Option Hex} {x : Unit} {s s' : Stage}
    (h : (playCard run player id hex).run.run s = .ok (.ok x, s')) :
    Performs run player s (.playCard id hex) s' := by
  obtain ⟨card, cost, paid, hcan, hplayed⟩ := played_of_run h
  have hid : card.id = id := by simpa using List.find?_some hcan.held
  subst hid
  cases hplayed with
  | event htype hpay hannounced hconclusion =>
    obtain ⟨shelved, hshelved, hrest⟩ := shelved_of_conclusion hrun hconclusion
    exact .event (.event hcan htype hpay hannounced) hshelved hrest
  | piece _ hin hpay h =>
    have hboard : paid.game.board = s.game.board := by
      rw [paid_of_run hpay]
      rfl
    rw [← Match.placementHexes_congr hboard player card.type] at hin
    obtain ⟨placed, settled, hlands, hsettled, rfl⟩ := landed_of_arrival hrun hin h
    exact .piece (conduct_pay hcan.enough hpay) hlands hsettled (.refl _)

theorem goes_movePiece (player : Color) (start goal : Hex) :
    Goes (movePiece run player start goal) := by
  refine (goes_ownPieceAt player start).next fun p => ?_
  refine Goes.next (.lift (goes_walk p.id start goal)) fun moved => ?_
  split
  · refine Goes.next (.turnover (.animate _) fun _ => .of_bearing rfl) fun _ => ?_
    refine Goes.next (.turnover (.playSound _) fun _ => .of_bearing rfl) fun _ => ?_
    exact goes_occur hrun _ _ (.pure ())
  · exact .refuse _

theorem goes_combat (attacker defender : PieceId) (ctx : Context) :
    Play.Goes Conduct (combat run attacker defender ctx) := by
  refine .piece? fun a => ?_
  split
  · exact .pure _
  · rename_i a
    refine (Play.Goes.lift _).next fun attack => .piece? fun d => ?_
    have hblows : ∀ retaliation : Int, Play.Goes Conduct (do
        Play.dealDamage run defender attack (some .combat) ctx
        if 0 < retaliation && (← Play.game).board.contains attacker then
          Play.dealDamage run attacker retaliation (some .combat) ctx) := by
      intro retaliation
      refine (Play.goes_dealDamage hrun defender attack _ ctx).next fun _ => .look fun m => ?_
      split
      · exact Play.goes_dealDamage hrun attacker retaliation _ ctx
      · exact .pure _
    cases d with
    | none => exact hblows 0
    | some d =>
      have hnote : Play.Goes Conduct (Play.note (.combat a d)) :=
        .note fun _ => .errand (.note _ rfl) (.note rfl) (.of_board rfl) (.of_board rfl)
      dsimp only
      split
      · exact hnote.next fun _ => hblows 0
      · exact (Play.Goes.lift _).next fun retaliation => hnote.next fun _ => hblows retaliation

/-- The attacker is marked before anything comes of the blow, if it is still there. -/
theorem Strikes.struck {player : Color} {attacker defender : PieceId} {stand target : Hex}
    {s s' : Stage} (h : Strikes run player attacker defender stand target s s') :
    s.game.board.get? attacker = none ∧ s' = s ∨
      Conduct (s.map (·.changePiece attacker (·.struck))) s' := by
  cases h with
  | idle hgone => exact .inl ⟨hgone, rfl⟩
  | vain => exact .inr (.refl _)
  | @blow _ text cards _ hblow =>
    have hshown := Stage.conduct_shows (s.map (·.changePiece attacker (·.struck)))
      (.attack stand target) "attack.wav"
    have htold := hshown.trans (Inquiry.conduct _ _ (.addLog none text cards))
    exact .inr (htold.trans
      ((Play.goes_occur hrun _ _ (goes_combat hrun attacker defender _)).conduct hblow))

theorem Approaches.conduct {player : Color} {start stand target : Hex} {s mid : Stage}
    (h : Approaches run player start target s stand mid) : Conduct s mid := by
  cases h with
  | near => exact .refl s
  | afar _ hmove => exact goes_movePiece hrun player start stand _ _ _ hmove

theorem Strikes.conduct {player : Color} {attacker defender : PieceId} {stand target : Hex}
    {s s' : Stage} (h : Strikes run player attacker defender stand target s s') : Conduct s s' := by
  obtain ⟨-, rfl⟩ | hstruck := h.struck hrun
  · exact .refl s'
  · exact (Goes.exert attacker .struck s () _ rfl).trans hstruck

theorem goes_attackPiece (player : Color) (start target : Hex) :
    Goes (attackPiece run player start target) := by
  intro s x s' h
  obtain ⟨a, _, defender, stand, mid, -, -, -, -, -, happroach, hstrikes⟩ :=
    approached_of_attackPiece h
  exact (happroach.conduct hrun).trans (hstrikes.conduct hrun)

/-- Who activates an ability can do so, and is marked in the end. -/
theorem spent_of_activateAbility (hquiet : run.Built false) {player : Color} {hex : Hex}
    {index : Nat} {x : Unit} {s s' : Stage}
    (h : (activateAbility run player hex index).run.run s = .ok (.ok x, s')) :
    ∃ (own p : Piece) (mid : Stage), s.game.board.pieceAt? hex = some own ∧
      s.game.board.get? own.id = some p ∧ p.canActivate = true ∧ Conduct s mid ∧
      s' = mid.map (·.changePiece own.id (·.spent)) := by
  obtain ⟨own, s₁, hown, hrest⟩ := run_bind h
  obtain ⟨hat, -, rfl⟩ := owned_of_run hown
  have hrest := of_run_look hrest
  split at hrest
  · cases hrest
  · rename_i p hp
    split at hrest
    · cases hrest
    · rename_i hcan
      split at hrest
      · cases hrest
      · obtain ⟨_, s₂, hlog, hrest⟩ := run_bind hrest
        obtain ⟨_, mid, hexecute, hspent⟩ := run_bind hrest
        cases hspent
        have hexecuted := (Goes.lift ((Resolving.goes_executeAll hrun hquiet _).run' _)) _ _ _ hexecute
        exact ⟨own, p, mid, hat, hp, by simpa using hcan,
          (goes_log _ _ _ _ _ _ hlog).trans hexecuted, rfl⟩

theorem goes_activateAbility (hquiet : run.Built false) (player : Color) (hex : Hex)
    (index : Nat) : Goes (activateAbility run player hex index) := by
  intro s x s' h
  obtain ⟨own, _, mid, -, -, -, hconduct, rfl⟩ := spent_of_activateAbility hrun hquiet h
  exact hconduct.trans (Goes.exert own.id .spent mid () _ rfl)

theorem performs_perform (hquiet : run.Built false) {player : Color} {resumption : Resumption}
    {x : Unit} {s s' : Stage}
    (h : (perform run player resumption).run.run s = .ok (.ok x, s')) :
    Performs run player s resumption s' := by
  cases resumption with
  | playCard card hex => exact performs_playCard hrun h
  | movePiece start goal => exact .conduct (goes_movePiece hrun player start goal _ _ _ h)
  | attackPiece start target => exact .conduct (goes_attackPiece hrun player start target _ _ _ h)
  | activateAbility hex index =>
    exact .conduct (goes_activateAbility hrun hquiet player hex index _ _ _ h)

end Running
end Attempt

namespace Match

variable {depth : Nat} {player : Color} {resumption : Resumption} {s s' : Stage}

theorem performs_perform
    (h : (Attempt.perform (Play.runner depth) player resumption).run.run s = .ok (.ok (), s')) :
    Attempt.Performs (Play.runner depth) player s resumption s' :=
  Attempt.performs_perform (Play.goes_runner depth) (Play.built_runner false depth) h

theorem venture_perform
    (h : (Attempt.perform (Play.runner depth) player resumption).run.run s = .ok (.ok (), s')) :
    Venture s s' :=
  (performs_perform h).venture (Play.goes_runner depth) (Play.built_runner false depth)

theorem conduct_settle (h : (Play.settle (Play.runner depth)).run s = .ok ((), s')) :
    Conduct s s' := (Play.goes_settle (Play.goes_runner depth)).conduct h

theorem conduct_passTurn (h : (Play.passTurn (Play.runner depth)).run s = .ok ((), s')) :
    Conduct s s' :=
  (Play.goes_passTurn (Play.goes_runner depth) (Play.built_runner false depth)).conduct h

theorem act_perform
    (h : (Attempt.perform (Play.runner depth) player resumption).run.run s = .ok (.ok (), s')) :
    Act s s' := (venture_perform h).act

theorem act_settle (h : (Play.settle (Play.runner depth)).run s = .ok ((), s')) : Act s s' :=
  (conduct_settle h).act

theorem act_passTurn (h : (Play.passTurn (Play.runner depth)).run s = .ok ((), s')) : Act s s' :=
  (conduct_passTurn h).act

theorem act_endOfTurn
    (h : (do
      Play.passTurn (Play.runner depth)
      Play.settle (Play.runner depth) : Play Unit).run s = .ok ((), s')) : Act s s' := by
  obtain ⟨_, s₁, hpass, hsettle⟩ := Play.run_bind h
  exact (act_passTurn hpass).trans (act_settle hsettle)

end Match
end HexDuel
