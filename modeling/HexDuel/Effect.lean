import HexDuel.Event

/-!
Carrying out actions: damage, destruction and placement, which raise events, and the actions of the
card language on top of them.
-/

set_option autoImplicit false

namespace HexDuel

namespace Play

/-! ### Destruction -/

/-- Destroys an object that is out of health or condemned, once. The triggers of its destruction see
it on the board and may take it off themselves. -/
def destroyIfDoomed (run : Runner) (id : PieceId) (cause : Option Cause) (ctx : Context) :
    Play Unit := do
  match ← piece? id with
  | none => return ()
  | some p =>
    let doomed ← p.isDoomed
    if doomed && !p.falling then do
      change (·.changePiece id (·.fall))
      note (.toppled id)
      change (·.playSound "destroyed.wav")
      change (·.addLog none s!"{p.card.mention} was destroyed" [p.card])
      occur run ((Occurrence.ofPiece .afterDestroyed id).withCause cause) ctx (pure ())
      match ← removePiece id with
      | some p => change (·.discard p.owner p.card.reset)
      | none => pure ()
    reapply

def dealDamage (run : Runner) (id : PieceId) (amount : Int) (cause : Option Cause)
    (ctx : Context) : Play Unit := do
  match ← piece? id with
  | none => return ()
  | some p =>
    if !p.falling then do
      let health ← Outcome.int32 (p.stats.health - max amount 0)
      change (·.changePiece id (·.setHealth health))
      change (·.addLog none s!"{p.card.mention} received {amount} damage" [p.card])
      occur run (.ofPiece .afterDamageReceived id) ctx (pure ())
    destroyIfDoomed run id cause ctx

def settleAll (run : Runner) : List PieceId → Play Unit
  | [] => return ()
  | id :: ids => do
    match ← piece? id with
    | none => pure ()
    | some p =>
      let doomed ← p.isDoomed
      if doomed && !p.falling then destroyIfDoomed run id none .empty
    settleAll run ids

/-- Brings the board up to date and destroys what that left doomed. -/
def settle (run : Runner) : Play Unit := do
  reapply
  settleAll run (← game).board.ids
  change (·.checkVictory)

/-! ### Placement -/

/-- A sentence for an object: acts are carried out for it at once, lasting abilities are given to
it. -/
def install (run : Runner) (id : PieceId) (sentence : Sentence) (source : Option AbilityId)
    (duration : Option Nat) (ctx : Context) : Play Unit := do
  let m ← game
  if m.board.contains id then
    match sentence with
    | .actions actions => run { ctx.onBehalfOf m id with source := source } actions
    | lasting => grant id lasting source duration

def installCard (run : Runner) (id : PieceId) (ctx : Context) : Play Unit := do
  match ← piece? id with
  | none => return ()
  | some p => p.card.sentences.forM fun s => install run id s none none ctx

/-- Puts a card on the board with its abilities. Nothing happens when the cell cannot take it. -/
def placeCard (run : Runner) (card : Card) (hex : Hex) (owner : Color) (justPlayed : Bool)
    (ctx : Context) : Play (Option PieceId) := do
  if !card.type.isPiece || !hex.onBoard || (← game).board.occupied hex then return none
  else do
    let id ← freshId
    let piece := { Piece.new id card.reset owner hex with justPlayed := justPlayed }
    if ((← game).board.place? piece).isNone then throw (.hexTaken hex)
    else do
      change (·.changeBoard (·.enter piece))
      installCard run id (ctx.onBehalfOf (← game) id)
      change (·.playSound "spawn.wav")
      occur run (.ofPiece .afterPlayed id) ctx (pure ())
      reapply
      return some id

end Play

namespace Resolving

/-! ### Actions -/

/-- Works on each object that is still on the board, one at a time; it can be spoken of while it is
worked on. -/
def forEachPiece (ids : List PieceId) (work : PieceId → Context → Play Unit) : Resolving Unit := do
  let outer := (← get).iteratee
  modify fun ctx => { ctx with iteratee := none }
  ids.forM fun id => do
    if (← game).board.contains id then do
      modify fun ctx => { ctx with iteratee := some (.piece id) }
      let ctx ← get
      (work id ctx : Play Unit)
  modify fun ctx => { ctx with iteratee := outer }

def changePieces (ids : List PieceId) (f : Piece → Piece) : Resolving Unit :=
  change fun m => ids.foldl (fun m id => m.changePiece id f) m

def adjustStats (adjustment : Adjustment) : List Attribute → Stats → Outcome Stats
  | [], s => .ok s
  | a :: as, s =>
    match s.get a with
    | none => adjustStats adjustment as s
    | some value => do adjustStats adjustment as (s.set a (← adjustment.apply value))

def adjustCard (scope : Scope) (adjustment : Adjustment) (c : Card) : Outcome Card :=
  if scope = .cost then do return { c with cost := ← adjustment.apply c.cost }
  else
    match c.stats with
    | none => .ok c
    | some s => do return { c with stats := some (← adjustStats adjustment scope.attributes s) }

def reprint (cost : Int) (stats : Option Stats) (c : Card) : Card :=
  { c with cost := cost, stats := stats }

/-- Folds an adjustment into what is printed on a card, if it is in a hand. -/
def adjustHandCard (scope : Scope) (adjustment : Adjustment) (id : CardId) : Resolving Unit := do
  let m ← game
  match m.holderOf? id with
  | none => return ()
  | some holder =>
    match (m.seat holder).cardInHand? id with
    | none => return ()
    | some c =>
      let adjusted ← adjustCard scope adjustment c
      change (·.changeCard holder id (reprint adjusted.cost adjusted.stats))

/-- Folds an adjustment into the numbers of objects, or of cards in hand, for good. -/
def modifyAttribute (run : Runner) (targets : Collection) (scope : Scope)
    (adjustment : Adjustment) : Resolving Unit :=
  match targets with
  | .pieces ids => forEachPiece ids fun id ctx => do
    match ← Play.piece? id with
    | none => pure ()
    | some p =>
      let stats ← adjustStats adjustment scope.attributes p.stats
      Play.change (·.changePiece id (·.setStats stats))
    Play.destroyIfDoomed run id none ctx
  | .cards cards => cards.forM fun c => adjustHandCard scope adjustment c.id
  | other => throw (.mismatch .piecesOrCards other.kind)

def discardFromHand (id : CardId) (m : Match) : Match :=
  match m.holderOf? id with
  | none => m
  | some holder =>
    match (m.seat holder).cardInHand? id with
    | none => m
    | some c => (m.dropFromHand holder id).discard holder c.reset

/-- Damage to a player is done to the player's core. -/
def victims (m : Match) : Collection → Outcome (List PieceId)
  | .players players => .ok ((players.filterMap m.board.coreOf?).map (·.id))
  | other => other.piecesIn m

/-- The health of the object once that much of it is restored, or all. -/
def restored (amount : Option Int) (p : Piece) : Outcome Int :=
  let base := p.card.baseHealth
  if p.stats.health < base then
    match amount with
    | none => return base
    | some n => do return min (← Outcome.int32 (p.stats.health + max n 0)) base
  else return p.stats.health

def restorePiece (amount : Option Int) (id : PieceId) : Resolving Unit := do
  match (← game).board.get? id with
  | none => return ()
  | some p =>
    let health ← restored amount p
    change (·.changePiece id (·.setHealth health))

def takeControl (owner : Color) (id : PieceId) (m : Match) : Match :=
  match m.board.get? id with
  | none => m
  | some p =>
    if p.owner = owner then m
    else
      (m.changePiece id (·.joining owner)).addLog (some owner)
        s!"took control of {p.card.mention}" [p.card]

def moveTo (id : PieceId) (hex : Hex) (m : Match) : Match :=
  if hex.onBoard && !m.board.occupied hex then m.changePiece id (·.moveTo hex)
  else m

def resolveCells (target : Target) : Resolving (List Hex) := do (← resolve target).asCells

def resolvePlayers (target : Target) : Resolving (List Color) := do (← resolve target).asPlayers

mutual

def execute (run : Runner) : Action → Resolving Unit
  | .moveAgain target => do
    let ids ← resolvePieces target
    changePieces ids (·.mayMoveAgain)
  | .moveAndAttackAgain target => do
    let ids ← resolvePieces target
    changePieces ids (·.mayMoveAndAttackAgain)
  | .dealDamage target amount => do
    let collection ← resolve target
    let amount ← evaluate amount
    let ids ← victims (← game) collection
    forEachPiece ids fun id ctx => Play.dealDamage run id amount none ctx
  | .destroy target => do
    let ids ← resolvePieces target
    forEachPiece ids fun id ctx => do
      Play.change (·.changePiece id (·.condemn))
      Play.destroyIfDoomed run id none ctx
  | .discard target => do
    let cards ← (← resolve target).asCards
    change fun m => cards.foldl (fun m c => discardFromHand c.id m) m
  | .draw player count => do
    let players ← resolvePlayers player
    let count ← evaluate count
    players.forM fun c => (Play.drawCards c count.toNat : Play Unit)
  | .endTurn => (Play.passTurn run : Play Unit)
  | .giveAbility target ability duration => do
    let ids ← resolvePieces target
    let duration := duration.or (← get).duration
    forEachPiece ids fun id ctx => Play.install run id ability none duration ctx
  | .modifyAttribute target scope modifier => do
    let targets ← resolve target
    modifyAttribute run targets scope (← resolveModifier modifier)
  | .modifyEnergy player modifier => do
    let players ← resolvePlayers player
    let adjustment ← resolveModifier modifier
    players.forM fun c => do
      let available ← adjustment.apply ((← game).seat c).energy.available
      change (·.changeSeat c (·.setAvailable available))
  | .restoreHealth target amount => do
    let ids ← resolvePieces target
    let amount ←
      match amount with
      | none => pure none
      | some n => do pure (some (← evaluate n))
    ids.forM (restorePiece amount)
  | .setAttribute target scope value => do
    let targets ← resolve target
    modifyAttribute run targets scope (.set (← evaluate value))
  | .swapAttributes target first second => do
    let ids ← resolvePieces target
    forEachPiece ids fun id ctx => do
      Play.change (·.changePiece id (·.swap first second))
      Play.destroyIfDoomed run id none ctx
  | .takeControl player target => do
    match (← resolvePlayers player).head? with
    | none => return ()
    | some owner => do
      let ids ← resolvePieces target
      change fun m => ids.foldl (fun m id => takeControl owner id m) m
      change (·.checkVictory)
  | .returnToHand target => do
    let ids ← resolvePieces target
    ids.forM fun id => (Play.returnToHand id : Play Unit)
  | .movePiece target destination => do
    let ids ← resolvePieces target
    match ids.head?, (← resolveCells destination).head? with
    | some id, some hex => change (moveTo id hex)
    | _, _ => return ()
  | .spawnPiece card hex owner => do
    let cards ← (← resolve card).asCards
    let hexes ← resolveCells hex
    let players ← resolvePlayers owner
    let ctx ← get
    let owner := players.head?.getD (ctx.controllerIn (← game))
    match cards.head?, hexes.head? with
    | some c, some h => do
      let _ ← (Play.placeCard run c h owner false ctx : Play (Option PieceId))
      return ()
    | _, _ => return ()
  | .ifHolds condition actions => do
    if ← evaluateState condition then executeAll run actions

/-- Actions in order; passive abilities are brought up to date after each. -/
def executeAll (run : Runner) : List Action → Resolving Unit
  | [] => return ()
  | a :: as => do
    note (.executed a)
    execute run a
    (Play.reapply : Play Unit)
    executeAll run as

end

end Resolving

namespace Play

/-- Follows effects that cause one another to the given depth. -/
def runner : Nat → Runner
  | 0 => fun _ _ => throw .exhausted
  | depth + 1 => fun ctx actions => (Resolving.executeAll (runner depth) actions).run' ctx

end Play
end HexDuel
