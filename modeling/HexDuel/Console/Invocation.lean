import HexDuel.Match
import HexDuel.Text

/-!
What the arguments of the program ask for. A subject follows the settings that hold everywhere, and
behind it come its own settings and words. A setting is written `--name value`, `--name=value`,
`-n value`, `-n=value` or `-nvalue`; switches have no value, and their letters may be joined. Behind
`--` there are only words.
-/

set_option autoImplicit false

namespace HexDuel.Console

inductive Subject where
  | replay
  | verify
  | simulate
  | cards
  deriving DecidableEq, Repr

namespace Subject

def all : List Subject := [.replay, .verify, .simulate, .cards]

def name : Subject → String
  | .replay => "replay"
  | .verify => "verify"
  | .simulate => "simulate"
  | .cards => "cards"

def ofName? (name : String) : Option Subject := all.find? (·.name == name)

/-- At most so many words, if there is a limit. -/
def maxWords : Subject → Option Nat
  | .replay => some 1
  | .verify => none
  | .simulate | .cards => some 0

end Subject

inductive Setting where
  | library
  | verbose
  | games
  | deck
  | seed
  | maxTurns
  | sharedDeck
  | saveTo
  deriving DecidableEq, Repr

namespace Setting

def name : Setting → String
  | .library => "cards"
  | .verbose => "verbose"
  | .games => "num-games"
  | .deck => "deck"
  | .seed => "seed"
  | .maxTurns => "max-turns"
  | .sharedDeck => "shared-deck"
  | .saveTo => "save-script"

def letter? : Setting → Option Char
  | .library => some 'c'
  | .verbose => some 'v'
  | .games => some 'n'
  | .deck => some 'd'
  | .seed => some 's'
  | .maxTurns | .sharedDeck | .saveTo => none

def isSwitch : Setting → Bool
  | .verbose | .sharedDeck => true
  | _ => false

/-- A number of turns has 32 bits. -/
def turns? (value : String) : Option Nat :=
  match Text.int? value.toList with
  | some (.ofNat n) => if n < Width.end32 then some n else none
  | _ => none

def admits (s : Setting) (value : String) : Bool :=
  match s with
  | .games | .seed => (Text.nat64? value.toList).isSome
  | .maxTurns => (turns? value).isSome
  | _ => true

def general : List Setting := [.library, .verbose]

def ofSimulation : List Setting := [.games, .deck, .seed, .maxTurns, .sharedDeck, .saveTo]

def allowed : Option Subject → List Setting
  | some .simulate => general ++ ofSimulation
  | _ => general

theorem mem_allowed_of_general {s : Setting} (subject : Option Subject) (h : s ∈ general) :
    s ∈ allowed subject := by
  rcases subject with - | (_ | _ | _ | _) <;> simp_all [allowed]

end Setting

structure Simulation where
  games : Nat
  deck : String
  seed : Option Nat
  maxTurns : Nat
  format : Format
  saveTo : Option String

inductive Task where
  | replay (script : String)
  | verify (scripts : List String)
  | simulate (simulation : Simulation)
  | cards

structure Invocation where
  library : String
  verbose : Bool
  task : Task

inductive Topic where
  | program
  | subject (subject : Subject)
  | help
  deriving DecidableEq, Repr

inductive Stop where
  | help (topic : Topic)
  | refused
  deriving DecidableEq, Repr

structure Reading where
  subject : Option Subject
  /-- Set in front of the subject. -/
  before : List (Setting × String)
  /-- Set behind it. -/
  behind : List (Setting × String)
  words : List String

namespace Reading

def start : Reading := ⟨none, [], [], []⟩

/-- What was set behind the subject takes precedence. -/
def value? (r : Reading) (s : Setting) : Option String := (r.behind.lookup s).or (r.before.lookup s)

def has (r : Reading) (s : Setting) : Bool := (r.value? s).isSome

def topic (r : Reading) : Topic :=
  match r.subject with
  | none => .program
  | some s => .subject s

/-- Nothing is set twice in the same place. -/
def set (r : Reading) (s : Setting) (value : String) : Except Stop Reading :=
  let here := if r.subject.isNone then r.before else r.behind
  if (here.lookup s).isSome || !s.admits value then .error .refused
  else if r.subject.isNone then .ok { r with before := (s, value) :: r.before }
  else .ok { r with behind := (s, value) :: r.behind }

theorem value?_of_set {r next : Reading} {s : Setting} {value : String}
    (h : r.set s value = .ok next) (hs : r.behind.lookup s = none) :
    next.value? s = some value := by
  unfold set at h
  extract_lets here at h
  by_cases hr : (here.lookup s).isSome || !s.admits value
  · rw [if_pos hr] at h
    cases h
  · rw [if_neg hr] at h
    split at h <;> cases h <;> simp [value?, hs]

/-- A further word: the subject first, then what belongs to it. -/
def addWord (r : Reading) (word : String) : Except Stop Reading :=
  match r.subject with
  | none =>
    match Subject.ofName? word with
    | none => .error .refused
    | some s => .ok { r with subject := some s }
  | some s =>
    let words := r.words ++ [word]
    match s.maxWords with
    | none => .ok { r with words }
    | some most => if words.length ≤ most then .ok { r with words } else .error .refused

/-- Behind `--`, where no subject can be. -/
def addWords (r : Reading) (words : List String) : Except Stop Reading :=
  if r.subject.isNone then .error .refused else words.foldlM addWord r

/-- A setting by its name. It is handed back if its value comes with the next argument. -/
def readName (r : Reading) (body : List Char) : Except Stop (Reading × Option Setting) :=
  let (name, value) :=
    match Text.cut? '=' body with
    | some (name, value) => (String.ofList name, some (String.ofList value))
    | none => (String.ofList body, none)
  if name == "help" then .error (if value.isNone then .help r.topic else .refused)
  else
    match (Setting.allowed r.subject).find? (·.name == name), value with
    | none, _ => .error .refused
    | some s, none => if s.isSwitch then do return (← r.set s "", none) else .ok (r, some s)
    | some s, some value =>
      if s.isSwitch then .error .refused else do return (← r.set s value, none)

/-- Settings by their letters. The last one may be handed back. -/
def readLetters (r : Reading) : List Char → Except Stop (Reading × Option Setting)
  | [] => .ok (r, none)
  | c :: cs =>
    if c = 'h' then .error (.help r.topic)
    else
      match (Setting.allowed r.subject).find? (·.letter? == some c) with
      | none => .error .refused
      | some s =>
        if s.isSwitch then
          match r.set s "" with
          | .ok r => readLetters r cs
          | .error stop => .error stop
        else
          match cs with
          | [] => .ok (r, some s)
          | '=' :: value | value => do return (← r.set s (String.ofList value), none)

def helpOn : List String → Stop
  | [] => .help .program
  | ["help"] => .help .help
  | [word] =>
    match Subject.ofName? word with
    | some s => .help (.subject s)
    | none => .refused
  | _ => .refused

/-- The arguments that are left, the first of them the value of what waits for one. -/
def readFrom (r : Reading) : Option Setting → List String → Except Stop Reading
  | none, [] => .ok r
  | some _, [] => .error .refused
  | waiting, arg :: args =>
    match waiting, arg.toList with
    | none, ['-', '-'] => r.addWords args
    | none, '-' :: '-' :: body => do
      let (r, waiting) ← r.readName body
      readFrom r waiting args
    | none, '-' :: c :: cs => do
      let (r, waiting) ← r.readLetters (c :: cs)
      readFrom r waiting args
    | none, _ =>
      if r.subject.isNone && arg == "help" then .error (helpOn args)
      else do readFrom (← r.addWord arg) none args
    | some _, '-' :: _ :: _ => .error .refused
    | some s, _ => do readFrom (← r.set s arg) none args

def simulation (r : Reading) : Simulation where
  games := ((r.value? .games).bind fun v => Text.nat64? v.toList).getD 100
  deck := (r.value? .deck).getD "deck.txt"
  seed := (r.value? .seed).bind fun v => Text.nat64? v.toList
  maxTurns := ((r.value? .maxTurns).bind Setting.turns?).getD 60
  format := if r.has .sharedDeck then .sharedDeck else .normal
  saveTo := r.value? .saveTo

/-- A subject whose words are missing is no task. -/
def task? (r : Reading) : Option Task :=
  match r.subject, r.words with
  | some .replay, [script] => some (.replay script)
  | some .verify, s :: ss => some (.verify (s :: ss))
  | some .simulate, _ => some (.simulate r.simulation)
  | some .cards, _ => some .cards
  | _, _ => none

end Reading

namespace Invocation

def parse (args : List String) : Except Stop Invocation := do
  let r ← Reading.start.readFrom none args
  match r.task? with
  | none => throw .refused
  | some task => return ⟨(r.value? .library).getD "cards.json", r.has .verbose, task⟩

def files (i : Invocation) : List String :=
  i.library ::
    match i.task with
    | .replay script => [script]
    | .verify scripts => scripts
    | .simulate s => [s.deck]
    | .cards => []

end Invocation
end HexDuel.Console
