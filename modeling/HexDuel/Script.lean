import HexDuel.Command
import HexDuel.Library
import HexDuel.Setup

/-!
Scripts: a setup by names of cards, and the commands of both players. Replaying a script leads to
the same match every time.
-/

set_option autoImplicit false

namespace HexDuel

structure ScriptSetup where
  usernames : PerSide String
  decks : PerSide (List String)
  format : Format
  limits : Limits
  seed : Nat
  viewpoint : Color

inductive ScriptError where
  | cards (error : LibraryError)
  | setup (fault : Fault)
  | command (index : Nat) (fault : Fault)
  deriving DecidableEq, Repr

def ScriptError.message : ScriptError → String
  | .cards error => "Card library error: " ++ error.message
  | .setup fault => "Invalid match setup: " ++ fault.message
  | .command index fault => s!"Engine error at command {index}: {fault.message}"

namespace ScriptSetup

def encode (s : ScriptSetup) : Json :=
  .obj [("usernames", s.usernames.encode .str), ("decks", s.decks.encode (.ofList .str)),
    ("format", s.format.encode), ("options", s.limits.encode), ("seed", .ofNat s.seed),
    ("perspective", s.viewpoint.encode)]

def decode (v : Json) : Option ScriptSetup := do
  let [usernames, decks, format, limits, seed, viewpoint] ←
    v.record? ["usernames", "decks", "format", "options", "seed", "perspective"] | none
  return {
    usernames := ← usernames.required (PerSide.decode Json.text?)
    decks := ← decks.required (PerSide.decode (Json.list? Json.text?))
    format := ← format.orElse Format.decode .normal
    limits := ← limits.orElse Limits.decode .standard
    seed := ← seed.required Json.nat64?
    viewpoint := ← viewpoint.orElse Color.decode .blue }

def build (s : ScriptSetup) (l : Library) : Except LibraryError MatchSetup := do
  let blue ← l.buildDeck s.decks.blue
  let orange ← l.buildDeck s.decks.orange
  return {
    usernames := s.usernames
    decks := ⟨blue, orange⟩
    format := s.format
    limits := s.limits
    seed := some s.seed
    viewpoint := s.viewpoint }

end ScriptSetup

/-- A match at the end of a replay, and how many commands were refused. -/
structure Replay where
  game : Match
  refused : Nat

namespace Replay

def step (r : Replay) (c : Command) : Outcome Replay := do
  let m ← r.game.submit c
  return ⟨m, if m.refusal.isSome then r.refused + 1 else r.refused⟩

/-- The commands from the given place in the script on. -/
def resume (r : Replay) : Nat → List Command → Except ScriptError Replay
  | _, [] => pure r
  | index, c :: cs =>
    match r.step c with
    | .error f => throw (.command index f)
    | .ok r => resume r (index + 1) cs

end Replay

def MatchSetup.replay (s : MatchSetup) (commands : List Command) : Except ScriptError Replay :=
  match s.start with
  | .error f => throw (.setup f)
  | .ok m => Replay.resume ⟨m, 0⟩ 0 commands

structure Script where
  setup : ScriptSetup
  commands : List Command

namespace Script

def encode (s : Script) : Json :=
  .obj [("setup", s.setup.encode), ("commands", .ofList Command.encode s.commands)]

def decode (v : Json) : Option Script := do
  let [setup, commands] ← v.record? ["setup", "commands"] | none
  return ⟨← setup.required ScriptSetup.decode, ← commands.required (Json.list? Command.decode)⟩

def parse (text : String) : Option Script := (Json.parse text).bind decode

/-- The script as a text, indented. -/
def toText (s : Script) : String := s.encode.indented

def replay (s : Script) (l : Library) : Except ScriptError Replay :=
  match s.setup.build l with
  | .error e => throw (.cards e)
  | .ok setup => setup.replay s.commands

end Script
end HexDuel
