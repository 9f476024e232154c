import HexDuel.Match
import HexDuel.Script

/-!
What can be held in numbers of a width: game numbers have 32 bits with a sign, ids 64 bits, durations
and distances 32. A cell can be held when its text can be read. What cards may say besides is left
open: a match abides by a creed when every sentence in it is one of the creed.
-/

set_option autoImplicit false

namespace HexDuel

/-- A game number. -/
def Fits32 (i : Int) : Prop := Width.least32 ≤ i ∧ i ≤ Width.most32

theorem Hex.inWord_iff {i : Int} : inWord i = true ↔ Fits32 i := by simp [inWord, Fits32]

/-- An id. -/
def FitsId (n : Nat) : Prop := n < Width.end64

/-- A duration or a distance. -/
def FitsCount (n : Nat) : Prop := n < Width.end32

/-- The sum of the first two coordinates has 32 bits, too, because it is taken on the way. -/
structure Hex.Fits (h : Hex) : Prop where
  q : Fits32 h.q
  r : Fits32 h.r
  s : Fits32 h.s
  sum : Fits32 (h.q + h.r)
  level : h.q + h.r + h.s = 0

/-! ### Phrases -/

structure Stats.Fits (s : Stats) : Prop where
  attack : ∀ i ∈ s.attack, Fits32 i
  health : Fits32 s.health
  speed : ∀ i ∈ s.speed, Fits32 i

def Adjustment.Fits : Adjustment → Prop
  | .add n | .subtract n | .multiply n | .divide n | .set n => Fits32 n

mutual

def Target.Fits : Target → Prop
  | .cardsInHand player _ => player.Fits
  | .piecesMatching _ conditions | .tilesMatching conditions => ConditionsFit conditions
  | .all inner | .choose inner | .controllerOf inner | .copyOf inner => inner.Fits
  | .random count pool => FitsId count ∧ pool.Fits
  | .generateCard _ stats _ => stats.Fits
  | _ => True

def Condition.Fits : Condition → Prop
  | .adjacentTo target | .controlledBy target => target.Fits
  | .attributeIs _ _ value => value.Fits
  | .exactDistance distance target | .withinDistance distance target =>
    FitsCount distance ∧ target.Fits
  | .hasId id => FitsId id
  | _ => True

def ConditionsFit : List Condition → Prop
  | [] => True
  | c :: cs => c.Fits ∧ ConditionsFit cs

def Number.Fits : Number → Prop
  | .const value => Fits32 value
  | .count target | .attributeSum target _ | .attributeValue target _ => target.Fits

end

def StateCondition.Fits : StateCondition → Prop
  | .collectionExists target | .targetHasProperty target _ => target.Fits

def Modifier.Fits (m : Modifier) : Prop := m.number.Fits

def StatusPhrase.Fits : StatusPhrase → Prop
  | .canOnlyAttack target => target.Fits
  | _ => True

mutual

def Action.Fits : Action → Prop
  | .moveAgain target | .moveAndAttackAgain target | .destroy target | .discard target |
    .swapAttributes target _ _ | .returnToHand target => target.Fits
  | .dealDamage target number | .draw target number | .setAttribute target _ number =>
    target.Fits ∧ number.Fits
  | .endTurn => True
  | .giveAbility target ability duration =>
    target.Fits ∧ ability.Fits ∧ ∀ n ∈ duration, FitsCount n
  | .modifyAttribute target _ modifier | .modifyEnergy target modifier =>
    target.Fits ∧ modifier.Fits
  | .restoreHealth target amount => target.Fits ∧ ∀ n ∈ amount, n.Fits
  | .takeControl first second | .movePiece first second => first.Fits ∧ second.Fits
  | .spawnPiece card hex owner => card.Fits ∧ hex.Fits ∧ owner.Fits
  | .ifHolds condition actions => condition.Fits ∧ ActionsFit actions

def ActionsFit : List Action → Prop
  | [] => True
  | a :: as => a.Fits ∧ ActionsFit as

def Sentence.Fits : Sentence → Prop
  | .actions list => ActionsFit list
  | .setAbility phrase => phrase.Fits
  | .setTrigger phrase => phrase.Fits

def PassiveEffect.Fits : PassiveEffect → Prop
  | .adjust _ modifier => modifier.Fits
  | .status phrase => phrase.Fits
  | .grant ability => ability.Fits
  | .activated _ actions => ActionsFit actions

def PassivePhrase.Fits : PassivePhrase → Prop
  | ⟨targets, effect, duration⟩ => targets.Fits ∧ effect.Fits ∧ ∀ n ∈ duration, FitsCount n

def TriggerPhrase.Fits : TriggerPhrase → Prop
  | ⟨trigger, actions, _, duration⟩ =>
    trigger.targets.Fits ∧ ActionsFit actions ∧ ∀ n ∈ duration, FitsCount n

end

theorem actionsFit_iff {as : List Action} : ActionsFit as ↔ ∀ a ∈ as, a.Fits := by
  induction as with
  | nil => simp [ActionsFit]
  | cons a as ih => simp [ActionsFit, ih]

/-! ### Creeds -/

/-- What sentences may say, what a card may do when it comes into play, and what a player may
invoke. -/
structure Creed where
  admits : Sentence → Prop
  enters : CardType → List Action → Prop
  invokes : List Action → Prop

/-- Nothing is asked but that all numbers fit. -/
def Creed.plain : Creed := ⟨Sentence.Fits, fun _ _ => True, fun _ => True⟩

section Creed

variable (K : Creed)

/-! ### Cards and objects -/

structure StatAdjustment.Fits (a : StatAdjustment) : Prop where
  ability : FitsId a.ability
  adjustment : a.adjustment.Fits

structure Card.Abides (c : Card) : Prop where
  baseCost : Fits32 c.baseCost
  cost : Fits32 c.cost
  stats : ∀ s ∈ c.stats, s.Fits
  sentences : ∀ s ∈ c.sentences, K.admits s
  enters : ∀ as, .actions as ∈ c.sentences → K.enters c.type as
  costAdjustments : ∀ a ∈ c.costAdjustments, a.Fits

def Collection.Abides : Collection → Prop
  | .cards xs => ∀ c ∈ xs, c.Abides K
  | .pieces ids => ∀ id ∈ ids, FitsId id
  | .players _ => True
  | .hexes xs => ∀ h ∈ xs, h.Fits

/-- How long an ability lasts is no part of what it says. -/
structure Passive.Abides (a : Passive) : Prop where
  id : FitsId a.id
  source : ∀ n ∈ a.source, FitsId n
  admits : K.admits (.setAbility ⟨a.targets, a.effect, none⟩)
  duration : ∀ n ∈ a.duration, FitsCount n
  applied : ∀ c ∈ a.applied, c.Abides K

structure Trigger.Abides (t : Trigger) : Prop where
  id : FitsId t.id
  source : ∀ n ∈ t.source, FitsId n
  admits : K.admits (.setTrigger ⟨t.spec, t.actions, t.overrides, none⟩)
  duration : ∀ n ∈ t.duration, FitsCount n

structure Activation.Abides (a : Activation) : Prop where
  ability : FitsId a.ability
  admits : K.admits (.actions a.actions)
  invokes : K.invokes a.actions

def StatusKind.Fits : StatusKind → Prop
  | .canOnlyAttack ids => ∀ id ∈ ids, FitsId id
  | _ => True

structure Status.Fits (s : Status) : Prop where
  ability : FitsId s.ability
  kind : s.kind.Fits

structure Piece.Abides (p : Piece) : Prop where
  id : FitsId p.id
  card : p.card.Abides K
  stands : p.type.isPiece = true
  hex : p.hex.Fits
  stats : p.stats.Fits
  passives : ∀ a ∈ p.passives, a.Abides K
  triggers : ∀ t ∈ p.triggers, t.Abides K
  activations : ∀ a ∈ p.activations, a.Abides K
  statuses : ∀ s ∈ p.statuses, s.Fits
  adjustments : ∀ a ∈ p.adjustments, a.Fits
  movesMade : Fits32 p.movesMade

/-- The objects are kept by ascending id. -/
structure Board.Abides (b : Board) : Prop where
  ascending : b.ids.Pairwise (· < ·)
  entries : ∀ e ∈ b.entries, FitsId e.1 ∧ e.2.Abides K

/-! ### Seats and matches -/

structure Energy.Fits (e : Energy) : Prop where
  available : Fits32 e.available
  total : Fits32 e.total

def Choice.Fits : Choice → Prop
  | .hex h => h.Fits
  | .card _ => True

structure Selection.Fits (s : Selection) : Prop where
  hexes : ∀ h ∈ s.hexes, h.Fits
  chosen : ∀ c ∈ s.chosen, c.Fits

structure Seat.Abides (s : Seat) : Prop where
  hand : ∀ c ∈ s.hand, c.Abides K
  deck : ∀ c ∈ s.deck, c.Abides K
  discard : ∀ c ∈ s.discard, c.Abides K
  energy : s.energy.Fits
  selection : s.selection.Fits

structure Limits.Fits (l : Limits) : Prop where
  maxHandSize : l.maxHandSize < Width.end64
  startingHandSize : l.startingHandSize < Width.end64
  maxEnergy : Fits32 l.maxEnergy
  coreHealth : Fits32 l.coreHealth

structure LogEntry.Abides (e : LogEntry) : Prop where
  time : Width.least64 ≤ e.time ∧ e.time ≤ Width.most64
  cards : ∀ c ∈ e.cards, c.Abides K

def Animation.Fits : Animation → Prop
  | .move start goal | .attack start goal => start.Fits ∧ goal.Fits

def Resumption.Fits : Resumption → Prop
  | .playCard _ hex => ∀ h ∈ hex, h.Fits
  | .movePiece start goal => start.Fits ∧ goal.Fits
  | .attackPiece start target => start.Fits ∧ target.Fits
  | .activateAbility hex index => hex.Fits ∧ index < Width.end64

def Rejection.Fits : Rejection → Prop
  | .notEnoughEnergy needed available => Fits32 needed ∧ Fits32 available
  | .illegalPlacement hex | .noPiece hex | .illegalMove hex | .illegalAttack hex => hex.Fits
  | _ => True

/-- All of it but the place in the stream of random numbers, which is cut off when it is written. -/
structure Match.Abides (m : Match) : Prop where
  seats : ∀ c, (m.seat c).Abides K
  limits : m.limits.Fits
  board : m.board.Abides K
  seed : m.random.seed < Width.end64
  lastId : FitsId m.lastId
  turnNumber : m.turnNumber < Width.end32
  log : ∀ e ∈ m.log, e.Abides K
  animations : ∀ a ∈ m.animations, a.Fits
  pending : ∀ p ∈ m.pending, p.resumption.Fits
  refusal : ∀ r ∈ m.refusal, r.Fits

/-! ### Setups and commands -/

structure MatchSetup.Abides (s : MatchSetup) : Prop where
  decks : ∀ c, ∀ card ∈ s.decks.get c, card.Abides K
  limits : s.limits.Fits
  seed : ∀ n ∈ s.seed, n < Width.end64

end Creed

def Command.Fits : Command → Prop
  | .playCard _ _ hex => ∀ h ∈ hex, h.Fits
  | .movePiece _ start goal => start.Fits ∧ goal.Fits
  | .attackPiece _ start target => start.Fits ∧ target.Fits
  | .activateAbility _ hex index => hex.Fits ∧ index < Width.end64
  | .chooseTarget _ target => target.Fits
  | .passTurn _ => True

structure Script.Fits (s : Script) : Prop where
  limits : s.setup.limits.Fits
  seed : s.setup.seed < Width.end64
  commands : ∀ c ∈ s.commands, c.Fits

end HexDuel
