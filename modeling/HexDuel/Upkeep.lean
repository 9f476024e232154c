import HexDuel.Resolution

/-!
Passive abilities. Each writes under its own id, on objects and on cards in hand, so it can be
withdrawn without touching what others wrote. Upkeep withdraws and reapplies them one after the
other, and drops those whose grant is gone.
-/

set_option autoImplicit false

namespace HexDuel

namespace Piece

def passive? (p : Piece) (id : AbilityId) : Option Passive := p.passives.find? (·.id == id)

def changeFirst (id : AbilityId) (f : Passive → Passive) : List Passive → List Passive
  | [] => []
  | a :: as => if a.id == id then f a :: as else a :: changeFirst id f as

def changePassive (p : Piece) (id : AbilityId) (f : Passive → Passive) : Piece :=
  { p with passives := changeFirst id f p.passives }

def hasGrantOf (p : Piece) (source : AbilityId) : Bool :=
  p.passives.any (·.source == some source) || p.triggers.any (·.source == some source)

def setGrants (p : Piece) (source : AbilityId) (disabled : Bool) : Piece :=
  { p with
    passives := p.passives.map fun a =>
      if a.source == some source then { a with disabled := disabled } else a
    triggers := p.triggers.map fun t =>
      if t.source == some source then { t with disabled := disabled } else t }

/-- One turn later, without the abilities that have run out. -/
def countDown (p : Piece) : Piece :=
  { p with passives := p.passives.filterMap (·.tick), triggers := p.triggers.filterMap (·.tick) }

def dropDisabled (p : Piece) : Piece :=
  { p with
    passives := p.passives.filter (!·.disabled)
    triggers := p.triggers.filter (!·.disabled) }

/-- Holds an adjustment of each attribute in the scope, unless the ability holds any already. -/
def adjust (p : Piece) (ability : AbilityId) (scope : Scope) (adjustment : Adjustment) : Piece :=
  if p.adjustments.any (·.ability == ability) then p
  else
    { p with
      adjustments := p.adjustments ++
        scope.attributes.map fun stat => ⟨ability, some stat, adjustment⟩ }

def addStatus (p : Piece) (status : Status) : Piece :=
  if p.statuses.any (·.ability == status.ability) then p
  else { p with statuses := p.statuses ++ [status] }

def addActivation (p : Piece) (activation : Activation) : Piece :=
  if p.activations.any (·.ability == activation.ability) then p
  else { p with activations := p.activations ++ [activation] }

def dropStatuses (p : Piece) (ability : AbilityId) : Piece :=
  { p with statuses := p.statuses.filter (·.ability != ability) }

def dropActivations (p : Piece) (ability : AbilityId) : Piece :=
  { p with activations := p.activations.filter (·.ability != ability) }

end Piece

/-- Holds an adjustment of the cost, unless the ability holds one already. -/
def Card.adjustCost (c : Card) (ability : AbilityId) (adjustment : Adjustment) : Card :=
  if c.costAdjustments.any (·.ability == ability) then c
  else { c with costAdjustments := c.costAdjustments ++ [⟨ability, none, adjustment⟩] }

def Card.dropCostOf (c : Card) (ability : AbilityId) : Card :=
  { c with costAdjustments := c.costAdjustments.filter (·.ability != ability) }

namespace Match

/-- Takes back all that the ability wrote, wherever it is. -/
def withdraw (a : Passive) (m : Match) : Match :=
  match a.effect with
  | .adjust .. =>
    let m := m.changeBoard (·.mapPieces (·.dropAdjustments a.id))
    Color.all.foldl (fun m c =>
      m.changeSeat c fun s => { s with hand := s.hand.map (·.dropCostOf a.id) }) m
  | .status _ => m.changeBoard (·.mapPieces (·.dropStatuses a.id))
  | .grant _ => m.changeBoard (·.mapPieces (·.setGrants a.id true))
  | .activated .. => m.changeBoard (·.mapPieces (·.dropActivations a.id))

/-- Only an ability that was applied has anything to take back. -/
def withdrawApplied (a : Passive) (m : Match) : Match :=
  if a.applied.isSome then m.withdraw a else m

def withdrawAll (as : List Passive) (m : Match) : Match :=
  as.foldl (fun m a => m.withdrawApplied a) m

/-- Counts every duration down by one turn and drops what has run out. -/
def tickDurations (m : Match) : Match :=
  let expired := m.board.pieces.flatMap fun p => p.passives.filter (·.tick.isNone)
  (m.changeBoard (·.mapPieces (·.countDown))).withdrawAll expired

def dropDisabled (m : Match) : Match :=
  let withdrawn := m.board.pieces.flatMap fun p => p.passives.filter (·.disabled)
  (m.changeBoard (·.mapPieces (·.dropDisabled))).withdrawAll withdrawn

end Match

namespace Play

/-- Gives an object a lasting ability. One that an ability grants is given once, and enabled again
from then on. -/
def grant (id : PieceId) (sentence : Sentence) (source : Option AbilityId)
    (duration : Option Nat) : Play Unit := do
  match ← piece? id with
  | none => return ()
  | some p =>
    let enabled := source.filter p.hasGrantOf
    match sentence, enabled with
    | .actions _, _ => return ()
    | _, some s => change (·.changePiece id (·.setGrants s false))
    | .setAbility phrase, none => do
      let ability : Passive :=
        ⟨← freshId, source, phrase.targets, phrase.effect, duration.or phrase.duration, false, none⟩
      change (·.changePiece id (·.addPassive ability))
    | .setTrigger phrase, none => do
      let trigger : Trigger :=
        ⟨← freshId, source, phrase.trigger, phrase.actions, phrase.overrides,
          duration.or phrase.duration, false⟩
      change (·.changePiece id (·.addTrigger trigger))

end Play

namespace Resolving

def statusKind : StatusPhrase → Resolving StatusKind
  | .cannotAttack => return .cannotAttack
  | .cannotMove => return .cannotMove
  | .cannotActivate => return .cannotActivate
  | .cannotFightBack => return .cannotFightBack
  | .canMoveOverPieces => return .canMoveOverPieces
  | .canOnlyAttack target => return .canOnlyAttack (← resolvePieces target)

def onEachPiece (targets : Collection) (f : Piece → Piece) : Resolving Unit := do
  let ids ← targets.piecesIn (← game)
  change fun m => ids.foldl (fun m id => m.changePiece id f) m

/-- Holds an adjustment of the cost on the card of that id, if it is in a hand. -/
def adjustCostOf (ability : AbilityId) (adjustment : Adjustment) (id : CardId) (m : Match) : Match :=
  match m.holderOf? id with
  | some holder => m.changeCard holder id (·.adjustCost ability adjustment)
  | none => m

def adjustCosts (m : Match) (ability : AbilityId) (adjustment : Adjustment) (cards : List Card) :
    Match :=
  cards.foldl (fun m c => adjustCostOf ability adjustment c.id m) m

/-- Writes what the ability does to its targets. An ability that grants single acts does nothing. -/
def applyPassive (a : Passive) (targets : Collection) : Resolving Unit :=
  match a.effect with
  | .adjust scope modifier => do
    let adjustment ← resolveModifier modifier
    match targets with
    | .pieces _ => onEachPiece targets (·.adjust a.id scope adjustment)
    | .cards cards =>
      if scope = .cost then change (adjustCosts · a.id adjustment cards) else return ()
    | other => throw (.mismatch .piecesOrCards other.kind)
  | .status phrase => do
    let kind ← statusKind phrase
    onEachPiece targets (·.addStatus ⟨a.id, kind⟩)
  | .grant sentence =>
    if sentence.isActions then return ()
    else do
      let ids ← targets.piecesIn (← game)
      ids.forM fun id => (Play.grant id sentence (some a.id) none : Play Unit)
  | .activated text actions => onEachPiece targets (·.addActivation ⟨a.id, text, actions⟩)

end Resolving

namespace Play

/-- Brings one ability of an object up to date. It is fetched anew, because those before it may
have changed it. -/
def reapplyOne (owner : PieceId) (id : AbilityId) : Play Unit := do
  match (← piece? owner).bind (·.passive? id) with
  | none => return ()
  | some a =>
    change (·.withdrawApplied a)
    let applied : Option Collection ←
      if a.disabled then pure none
      else do
        let ctx := { Context.forPiece (← game) owner with source := some id }
        let (targets, ctx) ← (Resolving.resolve a.targets).run ctx
        (Resolving.applyPassive a targets).run' ctx
        pure (some targets)
    change (·.changePiece owner (·.changePassive id (·.setApplied applied)))

def reapplyOf (owner : PieceId) : Play Unit := do
  match ← piece? owner with
  | none => return ()
  | some p => p.passives.forM fun a => reapplyOne owner a.id

/-- Brings every passive ability up to date. -/
def reapply : Play Unit := do
  (← game).board.ids.forM reapplyOf
  change (·.dropDisabled)

/-- Takes an object off the board, with all that its abilities wrote. -/
def removePiece (id : PieceId) : Play (Option Piece) := do
  match ← piece? id with
  | none => return none
  | some p =>
    change (·.changeBoard (·.erase id))
    change (·.withdrawAll p.passives)
    reapply
    change (·.checkVictory)
    return some p

def fullHandNote (m : Match) : String :=
  s!"had to discard a card due to having a full hand of {m.limits.maxHandSize} cards"

/-- Puts a card into the hand, or onto the discard pile when the hand is full. -/
def giveBack (owner : Color) (card : Card) (m : Match) : Match :=
  if m.limits.maxHandSize ≤ (m.seat owner).hand.length then
    (m.discard owner card).addLog (some owner) (fullHandNote m) []
  else m.addToHand owner card

def returnToHand (id : PieceId) : Play Unit := do
  match ← removePiece id with
  | none => return ()
  | some p => change (giveBack p.owner p.card.reset)

/-- How many more cards the hand takes; an event that is being resolved does not count. -/
def room (m : Match) (player : Color) : Nat :=
  m.limits.maxHandSize + (if m.eventResolving then 1 else 0) - (m.seat player).hand.length

def drawTimes (player : Color) : Nat → Match → Match
  | 0, m => m
  | n + 1, m => if (m.topCard? player).isNone then m else drawTimes player n (m.drawTop player)

def burnTimes (player : Color) : Nat → Match → Match
  | 0, m => m
  | n + 1, m =>
    if (m.topCard? player).isNone then m
    else burnTimes player n ((m.burnTop player).addLog (some player) (fullHandNote m) [])

/-- Draws up to the limit of the hand; every card beyond it goes to the discard pile. -/
def deal (player : Color) (count : Nat) (m : Match) : Match :=
  let drawn := min count (room m player)
  burnTimes player (count - drawn) (drawTimes player drawn m)

def drawCards (player : Color) (count : Nat) : Play Unit := do
  change (deal player count)
  reapply

end Play
end HexDuel
