import HexDuel.Json.Record

/-!
The match's random numbers: a key stream of words, made from a seed by the ChaCha block function
with eight rounds, and draws below a bound taken from it. A generator is its seed and its position
in the stream, so a match that is stored and restored goes on with the same numbers.
-/

set_option autoImplicit false

namespace HexDuel.KeyStream

abbrev Block := Vector UInt32 16

def rotate (x : UInt32) (n : UInt32) : UInt32 := (x <<< n) ||| (x >>> (32 - n))

/-- The quarter round on the four words at the given places. -/
def mix (v : Block) (a b c d : Fin 16) : Block :=
  let wa := v[a] + v[b]
  let wd := rotate (v[d] ^^^ wa) 16
  let wc := v[c] + wd
  let wb := rotate (v[b] ^^^ wc) 12
  let wa := wa + wb
  let wd := rotate (wd ^^^ wa) 8
  let wc := wc + wd
  let wb := rotate (wb ^^^ wc) 7
  (((v.set a wa).set b wb).set c wc).set d wd

/-- A round on the columns and one on the diagonals. -/
def doubleRound (v : Block) : Block :=
  let v := mix v 0 4 8 12
  let v := mix v 1 5 9 13
  let v := mix v 2 6 10 14
  let v := mix v 3 7 11 15
  let v := mix v 0 5 10 15
  let v := mix v 1 6 11 12
  let v := mix v 2 7 8 13
  mix v 3 4 9 14

/-- The next state of the sequence that spreads a seed over the key. -/
def spread (x : UInt64) : UInt64 := x * 6364136223846793005 + 11634580027462260723

def keyWord (x : UInt64) : UInt32 :=
  let w := (((x >>> 18) ^^^ x) >>> 27).toUInt32
  let n := (x >>> 59).toUInt32
  (w >>> n) ||| (w <<< ((32 - n) % 32))

def keyFrom : Nat → UInt64 → List UInt32
  | 0, _ => []
  | n + 1, x =>
    let x := spread x
    keyWord x :: keyFrom n x

theorem length_keyFrom (n : Nat) (x : UInt64) : (keyFrom n x).length = n := by
  induction n generalizing x with
  | zero => rfl
  | succ n ih => simp [keyFrom, ih]

def constants : List UInt32 := [0x61707865, 0x3320646e, 0x79622d32, 0x6b206574]

/-- Constants, key, block counter and an empty nonce. -/
def initial (seed : UInt64) (counter : UInt64) : Block :=
  ⟨(constants ++ keyFrom 8 seed ++ [counter.toUInt32, (counter >>> 32).toUInt32, 0, 0]).toArray,
    by simp [constants, length_keyFrom]⟩

def block (seed : UInt64) (counter : UInt64) : Block :=
  let start := initial seed counter
  let mixed := doubleRound (doubleRound (doubleRound (doubleRound start)))
  start.zipWith (· + ·) mixed

def word (seed position : Nat) : Nat :=
  let place : Fin 16 := ⟨position % 16, Nat.mod_lt _ (by decide)⟩
  (block (UInt64.ofNat seed) (UInt64.ofNat (position / 16)))[place].toNat

theorem word_lt (seed position : Nat) : word seed position < Width.end32 := UInt32.toNat_lt _

end KeyStream

/-- A place in the stream of a seed. -/
structure Generator where
  seed : Nat
  position : Nat
  deriving DecidableEq, Repr

namespace Generator

def ofSeed (seed : Nat) : Generator := ⟨seed, 0⟩

/-- How many words are used up, in 64 bits. -/
def cursor (g : Generator) : Nat := g.position % Width.end64

/-- Two words, the low one first. -/
def next (g : Generator) : Nat × Generator :=
  (KeyStream.word g.seed g.position + Width.end32 * KeyStream.word g.seed (g.position + 1),
    { g with position := g.position + 2 })

theorem next_lt (g : Generator) : g.next.1 < Width.end64 := by
  have h₁ := KeyStream.word_lt g.seed g.position
  have h₂ := KeyStream.word_lt g.seed (g.position + 1)
  simp only [next, Width.end32, Width.end64] at *; omega

/-- The largest low half of a product with `n` that leaves every result equally likely. -/
def zone (n : Nat) : Nat := n <<< (63 - Nat.log2 n) - 1

/-- Draws again while the low half of the product is above the zone, at most `tries` times. -/
def drawWithin (n : Nat) : Nat → Generator → Nat × Generator
  | 0, g => (g.next.1 * n / Width.end64, g.next.2)
  | tries + 1, g =>
    let (v, g) := g.next
    if v * n % Width.end64 ≤ zone n then (v * n / Width.end64, g) else drawWithin n tries g

/-- A number below `n`, which must be positive. Fewer than half of all draws are repeated, so the
bound on their number is never met. -/
def draw (g : Generator) (n : Nat) : Nat × Generator := drawWithin n 1024 g

theorem drawWithin_lt {n : Nat} (h : 0 < n) (tries : Nat) (g : Generator) :
    (drawWithin n tries g).1 < n := by
  have key : ∀ g : Generator, g.next.1 * n / Width.end64 < n := fun g =>
    Nat.div_lt_of_lt_mul (Nat.mul_lt_mul_of_pos_right g.next_lt h)
  induction tries generalizing g with
  | zero => exact key g
  | succ t ih =>
    simp only [drawWithin]
    split
    · exact key g
    · exact ih _

theorem draw_lt {n : Nat} (h : 0 < n) (g : Generator) : (g.draw n).1 < n :=
  drawWithin_lt h 1024 g

variable {α : Type}

def exchange (xs : List α) (i j : Nat) : List α :=
  match xs[i]?, xs[j]? with
  | some a, some b => (xs.set i b).set j a
  | _, _ => xs

/-- Exchanges every place from the last down to the second with a drawn one not above it. -/
def shuffleFrom : Nat → List α → Generator → List α × Generator
  | 0, xs, g => (xs, g)
  | i + 1, xs, g =>
    let (j, g) := g.draw (i + 2)
    shuffleFrom i (exchange xs (i + 1) j) g

def shuffle (g : Generator) (xs : List α) : List α × Generator := shuffleFrom (xs.length - 1) xs g

/-- Up to `count` entries without replacement, in the order in which they are drawn. -/
def pick : Nat → List α → Generator → List α × Generator
  | 0, _, g => ([], g)
  | _ + 1, [], g => ([], g)
  | count + 1, x :: xs, g =>
    let pool := x :: xs
    let (i, g) := g.draw pool.length
    match pool[i]? with
    | none => ([], g)
    | some a =>
      let (rest, g) := pick count (pool.eraseIdx i) g
      (a :: rest, g)

def encode (g : Generator) : Json :=
  .obj [("seed", .ofNat g.seed), ("cursor", .ofNat g.cursor)]

def decode (v : Json) : Option Generator := do
  let [seed, cursor] ← v.record? ["seed", "cursor"] | none
  return ⟨← seed.required Json.nat64?, ← cursor.required Json.nat64?⟩

end Generator
end HexDuel
