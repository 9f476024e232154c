import HexDuel.Proofs.Transcripts
import HexDuel.Proofs.Observance

/-!
Matches that go on after they were stored. All numbers of a match fit as long as those of its setup and
of its commands do, so the match is read back from its text; and the same holds of scripts.
-/

set_option autoImplicit false

namespace HexDuel

namespace Match

/-! ### Matches and scripts as texts -/

/-- The match that a text stands for. -/
def parse (text : String) : Option Match := (Json.parse text).bind decode

/-- Equal in everything; of the generators, seeds and cursors are compared. -/
def Equals (m m' : Match) : Prop :=
  m = { m' with random := m.random } ∧ m.random.seed = m'.random.seed ∧
    m.random.cursor = m'.random.cursor

theorem equals_stored (m : Match) : m.stored.Equals m :=
  ⟨rfl, rfl, Nat.mod_mod _ _⟩

/-- A match that nests no deeper than texts may is read back from its text, and so is a script. What
is read back equals the match; and unless the stream is so far used up that its place has more than 64
bits, it is the match, and whatever commands follow lead from both to the same end. -/
theorem survives_storage :
    (∀ m : Match, m.OfCreed .plain → m.encode.height ≤ Json.maxDepth →
      ∃ m', parse m.encode.compact = some m' ∧ m'.Equals m ∧
        (m.random.position < Width.end64 → m' = m ∧ ∀ commands : List Command,
          Replay.resume ⟨m', 0⟩ 0 commands = Replay.resume ⟨m, 0⟩ 0 commands)) ∧
    ∀ s : Script, s.Fits → s.encode.height ≤ Json.maxDepth → Script.parse s.toText = some s := by
  refine ⟨fun m hm hheight => ?_, fun s hs hheight => Script.parse_toText hs hheight⟩
  refine ⟨m.stored, decode_compact (hm.abides Creed.coherent_plain) hheight, equals_stored m,
    fun hplace => ?_⟩
  have hsame : m.stored = m := by
    unfold stored
    rw [Generator.stored_of_lt hplace]
  exact ⟨hsame, fun commands => by rw [hsame]⟩

/-- Blue's card has drawn an object at random, so that a part of the stream is used up. -/
theorem survives_storage_drawn :
    ∃ (s : MatchSetup) (m m' : Match) (script : Script), s.start = .ok m ∧
      m.submit .playSolo = .ok m' ∧ 0 < m'.random.position ∧
      parse m'.encode.compact = some m' ∧
      script.commands = [.movePiece .blue ⟨-3, 0, 3⟩ ⟨-2, -1, 3⟩] ∧
      Script.parse script.toText = some script := by
  let s := MatchSetup.solo [.dealDamage (.random 1 (.piecesInPlay .any)) (.const 1)]
  let script : Script := {
    setup := {
      usernames := s.usernames
      decks := ⟨["Event"], []⟩
      format := s.format
      limits := s.limits
      seed := 7
      viewpoint := .blue }
    commands := [.movePiece .blue ⟨-3, 0, 3⟩ ⟨-2, -1, 3⟩] }
  have hrun : (s.start.holds fun m => (m.submit .playSolo).holds fun m' =>
      decide (0 < m'.random.position) && decide (m'.random.position < Width.end64) &&
      decide (m'.encode.height ≤ Json.maxDepth)) = true := by
    decide +kernel
  obtain ⟨m, hstart, hrun⟩ := Outcome.exists_of_holds hrun
  obtain ⟨m', hsubmit, hrun⟩ := Outcome.exists_of_holds hrun
  simp only [Bool.and_eq_true, decide_eq_true_eq] at hrun
  obtain ⟨⟨hdrawn, hplace⟩, hheight⟩ := hrun
  have hsetup : s.Abides .plain := by
    refine MatchSetup.abides_solo ?_ trivial
    exact ⟨⟨⟨(by decide : 1 < Width.end64), trivial⟩, ⟨by decide, by decide⟩⟩, trivial⟩
  have hcard : Command.playSolo.Fits := fun _ hx => nomatch hx
  have hm' : m'.OfCreed .plain := (OfCreed.start hsetup hstart).submit hcard hsubmit
  obtain ⟨back, hparse, -, hback⟩ := survives_storage.1 m' hm' hheight
  obtain ⟨rfl, -⟩ := hback hplace
  have hscript : script.Fits := {
    limits := Limits.fits_standard
    seed := (by decide : 7 < Width.end64)
    commands := List.forall_mem_singleton.2
      ⟨Hex.fits_of_onBoard (by decide) rfl, Hex.fits_of_onBoard (by decide) rfl⟩ }
  exact ⟨s, m, back, script, hstart, hsubmit, hdrawn, hparse, rfl,
    survives_storage.2 script hscript (by decide)⟩

end Match
end HexDuel
