import HexDuel.Proofs.Storage

/-!
Scripts that are written and read back: the setup, and every command with its type among its fields.
-/

set_option autoImplicit false

namespace HexDuel

open Json (Codes)

namespace Json

mutual

theorem isClean_of_plain (v : Json) (h : v.Plain) : v.isClean = true := by
  cases v with
  | arr items => exact cleanItems_of_plain items h
  | obj members => exact cleanMembers_of_plain members h
  | real | row | unreadable => cases h
  | _ => rfl

theorem cleanItems_of_plain (vs : List Json) (h : PlainItems vs) : cleanItems vs = true := by
  cases vs with
  | nil => rfl
  | cons v vs =>
    rw [cleanItems, isClean_of_plain v h.1, cleanItems_of_plain vs h.2]
    rfl

theorem cleanMembers_of_plain (ms : List (String × Json)) (h : PlainMembers ms) :
    cleanMembers ms = true := by
  cases ms with
  | nil => rfl
  | cons m ms =>
    obtain ⟨k, v⟩ := m
    rw [cleanMembers, isClean_of_plain v h.1, cleanMembers_of_plain ms h.2]
    rfl

end

end Json

namespace Command

/-- The type is taken out, and the other fields stay as they are. -/
theorem split_typed (type : String) (p : Color) {fields : List (String × Json)}
    (h : ∀ m ∈ fields, m.1 ≠ "type") :
    split (typed type p fields) = some (type, .obj (("player", p.encode) :: fields)) := by
  have htype : fields.filter (·.1 == "type") = [] :=
    List.filter_eq_nil_iff.2 fun m hm => by simpa using h m hm
  have hrest : fields.filter (!·.1 == "type") = fields :=
    List.filter_eq_self.2 fun m hm => by simpa using h m hm
  simp [split, typed, List.partition_eq_filter_filter, htype, Function.comp_def, hrest]

theorem playerOf_encode (p : Color) : playerOf p.encode = some p := Color.decode_encode p

theorem plain_typed (type : String) (p : Color) (fields : List (String × Json)) :
    (typed type p fields).Plain ↔ (Json.obj fields).Plain := by
  simp [typed, p.codes.plain]

theorem plain_encode {c : Command} (h : c.Fits) : c.encode.Plain := by
  cases c with
  | playCard p card hex =>
    have hhex := Json.codes_option rfl fun x hx => Hex.codes (h x hx)
    simp [encode, plain_typed, hhex.plain]
  | movePiece p start goal | attackPiece p start goal =>
    simp [encode, plain_typed, (Hex.codes h.1).plain, (Hex.codes h.2).plain]
  | activateAbility p hex index =>
    simp [encode, plain_typed, (Hex.codes h.1).plain, (Json.codes_nat64 h.2).plain]
  | chooseTarget p target => simp [encode, plain_typed, (Choice.codes h).plain]
  | passTurn p => simp [encode, plain_typed]

theorem codes {c : Command} (h : c.Fits) : Codes decode c.encode c := by
  refine ⟨plain_encode h, ?_⟩
  rw [decode, Json.isClean_of_plain _ (plain_encode h)]
  cases c with
  | playCard p card hex =>
    have hcard := Json.codes_text card
    have hhex := Json.codes_option rfl fun x hx => Hex.codes (h x hx)
    rw [encode, split_typed _ _ (by simp)]
    simp [playerOf_encode, hcard.decode, hhex.decode]
  | movePiece p start goal | attackPiece p start goal =>
    have hstart := Hex.codes h.1
    have hgoal := Hex.codes h.2
    rw [encode, split_typed _ _ (by simp)]
    simp [playerOf_encode, hstart.decode, hgoal.decode]
  | activateAbility p hex index =>
    have hhex := Hex.codes h.1
    have hindex := Json.codes_nat64 h.2
    rw [encode, split_typed _ _ (by simp)]
    simp [playerOf_encode, hhex.decode, hindex.decode]
  | chooseTarget p target =>
    have htarget := Choice.codes h
    rw [encode, split_typed _ _ (by simp)]
    simp [playerOf_encode, htarget.decode]
  | passTurn p =>
    rw [encode, split_typed _ _ (by simp)]
    simp [playerOf_encode]

end Command

theorem ScriptSetup.codes {s : ScriptSetup} (hlimits : s.limits.Fits)
    (hseed : s.seed < Width.end64) : Codes decode s.encode s := by
  have husernames := PerSide.codes (p := s.usernames) fun c => Json.codes_text (s.usernames.get c)
  have hdecks := PerSide.codes (p := s.decks) fun c =>
    Json.codes_list fun name (_ : name ∈ s.decks.get c) => Json.codes_text name
  have hformat := s.format.codes
  have hlimits := Limits.codes hlimits
  have hseed := Json.codes_nat64 hseed
  have hviewpoint := s.viewpoint.codes
  exact ⟨by simp [encode, husernames.plain, hdecks.plain, hformat.plain, hlimits.plain,
      hseed.plain, hviewpoint.plain],
    Json.reads_record rfl (by decide) <|
      husernames.next <| hdecks.next <| hformat.next <| hlimits.next <| hseed.next <|
      hviewpoint.next rfl⟩

theorem Script.codes {s : Script} (h : s.Fits) : Codes decode s.encode s := by
  have hsetup := ScriptSetup.codes h.limits h.seed
  have hcommands := Json.codes_list fun c hc => Command.codes (h.commands c hc)
  exact ⟨by simp [encode, hsetup.plain, hcommands.plain],
    Json.reads_two _ hsetup.decode hcommands.decode⟩

/-! ### Texts -/

theorem Match.decode_compact {m : Match} (h : m.Abides .plain)
    (hheight : m.encode.height ≤ Json.maxDepth) :
    (Json.parse m.encode.compact).bind decode = some m.stored := by
  rw [Json.parse_compact (codes h).plain hheight, Option.bind_some, (codes h).decode]

theorem Script.parse_toText {s : Script} (h : s.Fits)
    (hheight : s.encode.height ≤ Json.maxDepth) : parse s.toText = some s := by
  rw [parse, toText, Json.parse_indented (codes h).plain hheight, Option.bind_some,
    (codes h).decode]

end HexDuel
