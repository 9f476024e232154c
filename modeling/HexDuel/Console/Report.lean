import HexDuel.Console.Help
import HexDuel.Percent
import HexDuel.Script
import HexDuel.SelfPlay

/-!
What the program answers: lines of its output, messages beside it, a file to save, and how it ends.
Nothing is read or written here. The texts of files are given, and a report says what is to be done.
-/

set_option autoImplicit false

namespace HexDuel.Console

inductive Output where
  | line (text : String)
  /-- A message that is not part of the result. -/
  | message (text : String)
  | save (path text : String)
  /-- How long it took, with the number of matches played. -/
  | elapsed (games : Option Nat)
  deriving DecidableEq, Repr

def good (text : String) : Output := .message s!"✓ {text}"

def bad (text : String) : Output := .message s!"✗ {text}"

def saveMessage (path : String) : Option String → Output
  | none => good s!"Saved first match to {path}"
  | some reason => bad s!"Failed to write script '{path}': {reason}"

structure Report where
  outputs : List Output
  code : Nat
  deriving DecidableEq, Repr

def failureCode : Nat := 1

def usageCode : Nat := 2

/-- A number has left its width, or effects are nested too deeply. -/
def abortCode : Nat := 101

/-- The output so far, last first, and the code of an early end. -/
abbrev Session := ExceptT Nat (StateM (List Output))

namespace Session

def put (o : Output) : Session Unit := modify (o :: ·)

def print (text : String) : Session Unit := put (.line text)

def printAll (lines : List String) : Session Unit := lines.forM print

def fail {α : Type} (text : String) : Session α := do
  put (bad text)
  throw failureCode

/-- Faults of the machine abort the program, others are reported. -/
def orAbort {α : Type} : Outcome α → Session (Except Fault α)
  | .ok a => return .ok a
  | .error f => if f.category = .machine then throw abortCode else return .error f

def report (s : Session Unit) : Report :=
  match s.run.run [] with
  | (.ok (), outputs) => ⟨outputs.reverse, 0⟩
  | (.error code, outputs) => ⟨outputs.reverse, code⟩

@[simp] theorem report_throw (code : Nat) : report (throw code) = ⟨[], code⟩ := rfl

theorem report_print (text : String) : report (print text) = ⟨[.line text], 0⟩ := rfl

theorem report_fail (text : String) : report (fail text) = ⟨[bad text], failureCode⟩ := rfl

end Session

/-- The text of each file, or the reason why there is none. -/
abbrev Files := String → Except String String

def Files.library (files : Files) (path : String) : Except String Library :=
  match files path with
  | .error reason => .error ("IO error: " ++ reason)
  | .ok text => (Library.parse text).mapError LibraryError.message

def Files.script (files : Files) (path : String) : Except String Script :=
  match files path with
  | .error reason => .error ("IO error: " ++ reason)
  | .ok text =>
    match Script.parse text with
    | none => .error "JSON parsing error: not a script"
    | some script => .ok script

def Files.deckList (files : Files) (library : Library) (path : String) :
    Except String (List String) := do
  (library.parseDeckList (← files path)).mapError LibraryError.message

namespace Session

/-! ### The library -/

def numbersOf (e : CardEntry) : String :=
  match e.stats with
  | none => ""
  | some s =>
    match s.attack, s.speed with
    | some attack, some speed => s!"{attack}/{s.health}/{speed}"
    | _, _ => s!"{s.health}"

def cardLine (e : CardEntry) : String :=
  Text.padLeft 2 s!"{e.cost}" ++ "  " ++ Text.padRight 28 e.name ++ " " ++
    Text.padRight 9 e.type.name ++ " " ++ Text.padLeft 8 (numbersOf e) ++ "  " ++ e.text

def listCards (library : Library) : Session Unit :=
  printAll ((library.names.filterMap library.find?).map cardLine)

/-! ### Scripts -/

/-- The match at the end of a script, or why there is none. -/
def replayed (library : Library) (script : Script) : Session (Except String Replay) :=
  match script.replay library with
  | .ok r => return .ok r
  | .error e =>
    match e with
    | .setup f | .command _ f =>
      if f.category = .machine then throw abortCode else return .error e.message
    | .cards _ => return .error e.message

def resultLine (m : Match) : String :=
  match m.winner with
  | some c => s!"Winner: {m.usernames.get c} ({c.name})"
  | none => s!"No winner yet; {m.turn.name} to move"

def printCore (m : Match) (c : Color) : Session Unit :=
  match m.board.coreOf? c with
  | none => return ()
  | some core => do
    match ← orAbort core.health with
    | .ok health => print s!"  {c.name} core: {health} health"
    | .error f => fail f.message

def diagnose (verbose : Bool) (text : String) : Session Unit :=
  if verbose then put (.message text) else return ()

def replayScript (files : Files) (library : Library) (verbose : Bool) (path : String) :
    Session Unit := do
  match files.script path with
  | .error reason => fail s!"Failed to read script '{path}': {reason}"
  | .ok script => do
    match ← replayed library script with
    | .error reason => fail s!"Replay failed: {reason}"
    | .ok r => do
      let m := r.game
      diagnose verbose s!"replay finished: {m.log.length} lines of the log"
      printAll ["", s!"=== {m.usernames.blue} vs {m.usernames.orange} ===", ""]
      printAll (m.log.map fun e => "  " ++ e.text)
      printAll ["", s!"Commands: {script.commands.length} ({r.refused} rejected)",
        s!"Turn: {m.turnNumber}", resultLine m]
      Color.all.forM (printCore m)

def problemOf (files : Files) (library : Library) (path : String) :
    Session (Option String) := do
  match files.script path with
  | .error reason => return some reason
  | .ok script => do
    match ← replayed library script with
    | .error reason => return some reason
    | .ok _ => return none

/-- Replays have one result, so a script is consistent once it can be replayed. -/
def verifyScripts (files : Files) (library : Library) (paths : List String) : Session Unit := do
  let problems ← paths.mapM (problemOf files library)
  let failures := (paths.zip problems).filterMap fun (path, problem) => problem.map (path, ·)
  printAll ["", "=== Verification ===", "", s!"Scripts: {paths.length}",
    s!"Consistent: {paths.length - failures.length}"]
  printAll (failures.map fun (path, reason) => s!"  ✗ {path}: {reason}")
  print ""
  put (.elapsed none)
  if !failures.isEmpty then throw failureCode

/-! ### Simulations -/

def setupOf (deck : List Card) (format : Format) (seed i : Nat) : MatchSetup where
  usernames := ⟨"blue", "orange"⟩
  decks := ⟨deck, deck⟩
  format := format
  limits := .standard
  seed := some ((seed + i) % Width.end64)
  viewpoint := .blue

def scriptOf (names : List String) (format : Format) (seed : Nat) (commands : List Command) :
    Script where
  setup :=
    { usernames := ⟨"blue", "orange"⟩
      decks := ⟨names, names⟩
      format := format
      limits := .standard
      seed := seed
      viewpoint := .blue }
  commands := commands

structure Tally where
  /-- Winner and number of turns of every match that was decided. -/
  decided : List (Color × Nat)
  unfinished : Nat
  errors : List Fault

namespace Tally

def empty : Tally := ⟨[], 0, []⟩

def add (t : Tally) : Except Fault SelfPlay.Record → Tally
  | .error f => { t with errors := t.errors ++ [f] }
  | .ok r =>
    match r.game.winner with
    | some c => { t with decided := (c, r.game.turnNumber) :: t.decided }
    | none => { t with unfinished := t.unfinished + 1 }

def wins (t : Tally) (c : Color) : Nat := (t.decided.filter (·.1 == c)).length

/-- The numbers of turns that decided a match, ascending, and how many each of them did. -/
def turns (t : Tally) : List (Nat × Nat) :=
  let all := (t.decided.map (·.2)).mergeSort
  all.eraseDups.map fun n => (n, all.count n)

theorem length_decided (t : Tally) : t.wins .blue + t.wins .orange = t.decided.length := by
  obtain ⟨decided, _, _⟩ := t
  simp only [wins]
  induction decided with
  | nil => rfl
  | cons d ds ih =>
    obtain ⟨c, n⟩ := d
    cases c <;> simp <;> omega

end Tally

def bar (share : Option Binary) : String :=
  String.ofList (List.replicate ((share.map (·.half.floor)).getD 0) '█')

def winsLine (games : Nat) (t : Tally) (c : Color) : String :=
  let share := percentText (percent? (t.wins c) games)
  Text.padLeft 7 c.name ++ s!" wins: {share}% ({t.wins c})"

def turnLine (games : Nat) (entry : Nat × Nat) : String :=
  let share := percent? entry.2 games
  "  Turn " ++ Text.padLeft 3 s!"{entry.1}" ++
    s!": {percentText share}% {bar share} ({entry.2})"

def resultLines (games : Nat) (t : Tally) : List String :=
  ["=== Results ===", ""] ++ Color.all.map (winsLine games t) ++
    [s!"Unfinished: {t.unfinished}"] ++
    (if t.errors.isEmpty then [] else [s!"Engine errors: {t.errors.length}"]) ++
    ["", "Deciding turn distribution:"] ++ t.turns.map (turnLine games) ++ [""]

def saveFirst (s : Simulation) (names : List String) (seed : Nat) :
    List (Except Fault SelfPlay.Record) → Session Unit
  | .ok r :: _ =>
    match s.saveTo with
    | none => return ()
    | some path => put (.save path (scriptOf names s.format seed r.commands).toText)
  | _ => return ()

def simulate (files : Files) (library : Library) (verbose : Bool) (anySeed : Nat)
    (s : Simulation) : Session Unit := do
  match files.deckList library s.deck with
  | .error reason => fail s!"Failed to parse deck file '{s.deck}': {reason}"
  | .ok names => do
    match library.buildDeck names with
    | .error e => fail s!"Failed to build deck: {e.message}"
    | .ok deck => do
      let seed := s.seed.getD anySeed
      printAll ["", "=== Self-play ===", "", s!"Deck: {s.deck} ({deck.length} cards)",
        s!"Games: {s.games}", s!"Seed: {seed}", ""]
      let results ← (List.range s.games).mapM fun i =>
        orAbort (SelfPlay.play (setupOf deck s.format seed i) s.maxTurns)
      saveFirst s names seed results
      let tally := results.foldl Tally.add .empty
      diagnose verbose s!"self-play finished: {tally.decided.length} matches decided"
      (tally.errors.map fun f => bad s!"Engine error: {f.message}").forM put
      printAll (resultLines s.games tally)
      put (.elapsed (some s.games))

end Session

open Session in
/-- What an invocation comes to. Without a seed of its own, a simulation starts from `anySeed`. -/
def Invocation.session (i : Invocation) (files : Files) (anySeed : Nat) : Session Unit := do
  match files.library i.library with
  | .error reason => fail s!"Failed to load cards: {reason}"
  | .ok library => do
    put (good s!"Loaded {library.size} cards from {i.library}")
    match i.task with
    | .replay script => replayScript files library i.verbose script
    | .verify scripts => verifyScripts files library scripts
    | .simulate s => simulate files library i.verbose anySeed s
    | .cards => listCards library

def run (args : List String) (files : Files) (anySeed : Nat) : Report :=
  match Invocation.parse args with
  | .error (.help topic) => ⟨topic.lines.map .line, 0⟩
  | .error .refused => ⟨[.message "error: bad arguments, try '--help'"], usageCode⟩
  | .ok i => (i.session files anySeed).report

end HexDuel.Console
