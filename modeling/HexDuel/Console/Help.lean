import HexDuel.Console.Invocation

/-!
Help on the program and on its subjects.
-/

set_option autoImplicit false

namespace HexDuel.Console

def Subject.purpose : Subject → String
  | .replay => "Replay a match script and print its log and result"
  | .verify => "Replay each script twice and check both runs end in the same state"
  | .simulate => "Play out self-play matches between two copies of a deck"
  | .cards => "List the card library"

/-- How the words of a subject are written, and what they are. -/
def Subject.wordHelp : Subject → Option (String × String)
  | .replay => some ("<SCRIPT>", "Match script file")
  | .verify => some ("<SCRIPTS>...", "Match script files")
  | .simulate | .cards => none

namespace Setting

def valueName : Setting → String
  | .library => "CARDS"
  | .games => "NUM_GAMES"
  | .deck => "DECK"
  | .seed => "SEED"
  | .maxTurns => "MAX_TURNS"
  | .saveTo => "SAVE_SCRIPT"
  | .verbose | .sharedDeck => ""

def purpose : Setting → String
  | .library => "Card library (JSON array of card definitions) [default: cards.json]"
  | .verbose => "Print engine diagnostics to stderr"
  | .games => "Number of matches to play [default: 100]"
  | .deck => "Deck list file (\"COUNT Card Name\" per line) [default: deck.txt]"
  | .seed => "Base seed for reproducibility"
  | .maxTurns => "Give up on a match after this many turns [default: 60]"
  | .sharedDeck => "Draw both players from one merged deck"
  | .saveTo => "Write the first match as a replayable script"

/-- How a setting is written, its letter first. -/
def usage (s : Setting) : String :=
  let letter :=
    match s.letter? with
    | some c => s!"-{c}, "
    | none => "    "
  letter ++ "--" ++ s.name ++ (if s.isSwitch then "" else s!" <{s.valueName}>")

/-- Settings with those in front that every subject has, as far as they are as early. -/
def listed : Option Subject → List Setting
  | some .simulate =>
    [.library, .games, .deck, .verbose, .seed, .maxTurns, .sharedDeck, .saveTo]
  | _ => general

theorem mem_listed (subject : Option Subject) (s : Setting) :
    s ∈ listed subject ↔ s ∈ allowed subject := by
  rcases subject with - | (_ | _ | _ | _) <;> cases s <;> simp [listed, allowed, general, ofSimulation]

end Setting

/-- Two columns, the first as wide as its widest entry. -/
def columns (rows : List (String × String)) : List String :=
  let width := (rows.map fun r => r.1.length).foldl max 0
  rows.map fun (left, right) => "  " ++ Text.padRight width left ++ "  " ++ right

def settingsHelp (subject : Option Subject) : List String :=
  "Options:" :: columns ((Setting.listed subject).map (fun s => (s.usage, s.purpose)) ++
    [("-h, --help", "Print help")])

def programName : String := "hexduel"

def programHelp : List String :=
  ["Deterministic rules engine for a hex-board robot card game", "",
    s!"Usage: {programName} [OPTIONS] <COMMAND>", "", "Commands:"] ++
    columns (Subject.all.map (fun s => (s.name, s.purpose)) ++
      [("help", "Print this message or the help of the given subcommand(s)")]) ++
    [""] ++ settingsHelp none

def subjectHelp (s : Subject) : List String :=
  let usage := s!"Usage: {programName} {s.name} [OPTIONS]"
  match s.wordHelp with
  | none => [s.purpose, "", usage, ""] ++ settingsHelp (some s)
  | some (word, meaning) =>
    [s.purpose, "", s!"{usage} {word}", "", "Arguments:"] ++ columns [(word, meaning)] ++ [""] ++
      settingsHelp (some s)

def Topic.lines : Topic → List String
  | .program => programHelp
  | .subject s => subjectHelp s
  | .help =>
    ["Print this message or the help of the given subcommand(s)", "",
      s!"Usage: {programName} help [COMMAND]...", "", "Arguments:"] ++
      columns [("[COMMAND]...", "Print help for the subcommand(s)")]

end HexDuel.Console
