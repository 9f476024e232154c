import HexDuel.Json.Printer
import HexDuel.Json.Reader
import Mathlib.Data.List.Basic
import Mathlib.Data.List.Induction
import Mathlib.Data.List.TakeDrop

/-!
What is printed is read back. The compact and the indented text of a value differ in blanks only,
and the reader skips those.
-/

set_option autoImplicit false

namespace HexDuel.Json

/-! ### Numbers and texts -/

/-- What follows does not go on with a number. -/
def Stops (rest : List Char) : Prop :=
  ∀ c ∈ rest.head?, c.isDigit = false ∧ isRealMark c = false

theorem stops_nil : Stops [] := fun _ h => nomatch h

theorem stops_cons {c : Char} (hdigit : c.isDigit = false) (hmark : isRealMark c = false)
    (rest : List Char) : Stops (c :: rest) := by
  intro d hd
  obtain rfl := Option.some.inj hd
  exact ⟨hdigit, hmark⟩

theorem span_digits {ds rest : List Char} (hds : ∀ c ∈ ds, c.isDigit = true) (hrest : Stops rest) :
    (ds ++ rest).span Char.isDigit = (ds, rest) := by
  rw [List.span_eq_takeWhile_dropWhile, List.takeWhile_append_of_pos hds,
    List.dropWhile_append_of_pos hds]
  cases rest with
  | nil => simp
  | cons c rest =>
    have hc := (hrest c rfl).1
    simp [hc]

theorem isDigit_of_mem_digits {n : Nat} {c : Char} (h : c ∈ Nat.toDigits 10 n) :
    c.isDigit = true := Nat.isDigit_of_mem_toDigits (by decide) (by decide) h

theorem readDigits_digits (n : Nat) {rest : List Char} (hrest : Stops rest) :
    readDigits (Nat.toDigits 10 n ++ rest) = some (Nat.toDigits 10 n, rest) := by
  unfold readDigits
  rw [span_digits (fun _ => isDigit_of_mem_digits) hrest]
  split
  · rename_i hempty
    exact absurd (congrArg Prod.fst hempty) Nat.toDigits_ne_nil
  · rfl

/-- Only zero is written with a leading zero. -/
theorem head?_digits {n : Nat} (h : 0 < n) : (Nat.toDigits 10 n).head? ≠ some '0' := by
  induction n using Nat.strongRecOn with
  | ind n ih =>
    by_cases hsmall : n < 10
    · rw [Nat.toDigits_of_lt_base hsmall]
      simp only [List.head?_cons, ne_eq, Option.some.injEq, Nat.digitChar_eq_zero]
      omega
    · rw [Nat.toDigits_of_base_le (by decide) (by omega),
        List.head?_append_of_ne_nil _ Nat.toDigits_ne_nil]
      exact ih (n / 10) (by omega) (by omega)

theorem readUnsigned_digits (negative : Bool) (n : Nat) {rest : List Char} (hrest : Stops rest) :
    readUnsigned negative (Nat.toDigits 10 n ++ rest) =
      some (integerValue negative (Nat.toDigits 10 n), rest) := by
  have hlead : (decide ((Nat.toDigits 10 n).length > 1) &&
      (Nat.toDigits 10 n).head? == some '0') = false := by
    obtain rfl | hpos := Nat.eq_zero_or_pos n
    · decide
    · simp [head?_digits hpos]
  have hmark : (rest.head?.map isRealMark).getD false = false := by
    cases rest with
    | nil => rfl
    | cons c rest => exact (hrest c rfl).2
  simp only [readUnsigned, readDigits_digits n hrest, bind, Option.bind, hlead, hmark,
    Bool.false_eq_true, if_false]

theorem numberOf_digits (n : Nat) : numberOf (Nat.toDigits 10 n) = n :=
  Nat.ofDigitChars_ten_toDigits

theorem head?_digits_ne_minus (n : Nat) (rest : List Char) :
    (Nat.toDigits 10 n ++ rest).head? ≠ some '-' := by
  rw [List.head?_append_of_ne_nil _ Nat.toDigits_ne_nil]
  intro h
  have hdigit := isDigit_of_mem_digits (List.mem_of_mem_head? h)
  revert hdigit
  decide

theorem readNumber_writeInt {i : Int} (hleast : Width.least64 ≤ i) (hmost : i < Width.end64)
    {rest : List Char} (hrest : Stops rest) :
    readNumber (writeInt i rest) = some (.int i, rest) := by
  unfold writeInt
  split
  · rename_i hneg
    have hvalue : integerValue true (Nat.toDigits 10 i.natAbs) = .int i := by
      simp only [integerValue, numberOf_digits, if_true]
      rw [if_pos (by omega)]
      congr 1
      omega
    rw [readNumber, readUnsigned_digits true _ hrest, hvalue]
  · rename_i hneg
    have hvalue : integerValue false (Nat.toDigits 10 i.natAbs) = .int i := by
      simp only [integerValue, numberOf_digits, Bool.false_eq_true, if_false]
      rw [if_pos (by omega)]
      congr 1
      omega
    have hnone := head?_digits_ne_minus i.natAbs rest
    rw [← hvalue, ← readUnsigned_digits false _ hrest]
    unfold readNumber
    split
    · rename_i heq
      rw [heq] at hnone
      exact absurd rfl hnone
    · rfl

/-- How a character comes out of its text. -/
def written (c : Char) : Written :=
  if c = '\n' ∨ c = '\t' ∨ c = '\r' ∨ c = '\x08' ∨ c = '\x0c' then .char c
  else if c.toNat < 32 then .code c.toNat
  else .char c

theorem hexValue_hexDigit : ∀ n < 16, hexValue (hexDigit n) = some n := by decide

theorem hexNumber_code {n : Nat} (h : n < 32) :
    hexNumber ['0', '0', hexDigit (n / 16), hexDigit (n % 16)] = some n := by
  have hzero : hexValue '0' = some 0 := by decide
  simp only [hexNumber, List.foldlM_cons, List.foldlM_nil, hzero, Option.map_some,
    hexValue_hexDigit (n / 16) (by omega), hexValue_hexDigit (n % 16) (by omega), bind,
    Option.bind, pure]
  congr 1
  omega

theorem readWritten_escapeChar (c : Char) (back : List Written) (rest : List Char) :
    readWritten back (escapeChar c ++ rest) = readWritten (written c :: back) rest := by
  unfold escapeChar
  split
  · subst_vars; rfl
  split
  · subst_vars; rfl
  split
  · subst_vars; rfl
  split
  · subst_vars; rfl
  split
  · subst_vars; rfl
  split
  · subst_vars; rfl
  split
  · subst_vars; rfl
  rename_i hquote hslash hline htab hreturn hback hfeed
  have hplain : ¬ (c = '\n' ∨ c = '\t' ∨ c = '\r' ∨ c = '\x08' ∨ c = '\x0c') := by
    simp [hline, htab, hreturn, hback, hfeed]
  split
  · rename_i hcontrol
    rw [written, if_neg hplain, if_pos hcontrol]
    simp only [List.cons_append, List.nil_append]
    rw [readWritten]
    simp only [Char.reduceEq, if_false, if_true]
    rw [hexNumber_code hcontrol]
    simp [plainEscape]
  · rename_i hcontrol
    rw [written, if_neg hplain, if_neg hcontrol]
    simp only [List.cons_append, List.nil_append]
    rw [readWritten.eq_def]
    simp [hquote, hslash, hcontrol]

theorem readWritten_escaped (cs : List Char) (back : List Written) (rest : List Char) :
    readWritten back (cs.flatMap escapeChar ++ '"' :: rest) =
      some ((cs.map written).reverse ++ back, rest) := by
  induction cs generalizing back with
  | nil =>
    rw [List.flatMap_nil, List.nil_append, readWritten.eq_def]
    rfl
  | cons c cs ih =>
    rw [List.flatMap_cons, List.append_assoc, readWritten_escapeChar, ih, List.map_cons,
      List.reverse_cons, List.append_assoc, List.singleton_append]

theorem joinHalves_written (c : Char) (back : List Written) (out : List Char) :
    joinHalves (written c :: back) out = joinHalves back (c :: out) := by
  unfold written
  split
  · rfl
  · split
    · rename_i hcontrol
      have hlow : isLowHalf c.toNat = false := by
        rw [isLowHalf, Bool.and_eq_false_iff]
        exact .inl (decide_eq_false (by omega))
      have hhigh : isHighHalf c.toNat = false := by
        rw [isHighHalf, Bool.and_eq_false_iff]
        exact .inl (decide_eq_false (by omega))
      rw [joinHalves.eq_def]
      simp [hlow, hhigh]
    · rfl

theorem joinHalves_reverse (cs : List Char) (out : List Char) :
    joinHalves (cs.map written).reverse out = some (cs ++ out) := by
  induction cs using List.reverseRecOn generalizing out with
  | nil => rfl
  | append_singleton cs c ih =>
    rw [List.map_append, List.reverse_append, List.map_singleton, List.reverse_singleton,
      List.singleton_append, joinHalves_written, ih, List.append_assoc, List.singleton_append]

/-- What stands behind the opening quote. -/
def quoted (s : String) : List Char := s.toList.flatMap escapeChar ++ ['"']

theorem writeText_eq (s : String) (rest : List Char) :
    writeText s rest = '"' :: (quoted s ++ rest) := by simp [writeText, quoted]

theorem readText_quoted (s : String) (rest : List Char) :
    readText (quoted s ++ rest) = some (some s, rest) := by
  unfold readText quoted
  rw [List.append_assoc, List.singleton_append, readWritten_escaped, List.append_nil]
  simp [joinHalves_reverse]

/-! ### Layouts -/

/-- The blanks of a text. -/
structure Layout where
  /-- In front of a part of a container, by how deep it stands. -/
  lead : Nat → List Char
  /-- Behind a colon. -/
  gap : List Char

namespace Layout

structure Blank (l : Layout) : Prop where
  lead : ∀ level, ∀ c ∈ l.lead level, isBlank c = true
  gap : ∀ c ∈ l.gap, isBlank c = true

def tight : Layout := ⟨fun _ => [], []⟩

def indenting : Layout := ⟨fun level => newline level [], [' ']⟩

theorem blank_tight : tight.Blank := ⟨fun _ _ h => (nomatch h), fun _ h => nomatch h⟩

theorem blank_indenting : indenting.Blank := by
  refine ⟨fun level c hc => ?_, fun c hc => ?_⟩
  · simp only [indenting, newline, List.append_nil, List.mem_cons, List.mem_replicate] at hc
    obtain rfl | ⟨-, rfl⟩ := hc <;> decide
  · obtain rfl := List.mem_singleton.1 hc
    decide

end Layout

mutual
/-- The text of a value in that layout. -/
def spell (l : Layout) (level : Nat) : Json → List Char
  | .arr [] | .row [] => ['[', ']']
  | .arr (v :: vs) | .row (v :: vs) =>
    '[' :: (l.lead (level + 1) ++ (v.spell l (level + 1) ++ (spellItems l (level + 1) vs ++
      (l.lead level ++ [']']))))
  | .obj [] => ['\x7b', '\x7d']
  | .obj ((k, v) :: ms) =>
    '\x7b' :: (l.lead (level + 1) ++ '"' :: (quoted k ++ ':' :: (l.gap ++ (v.spell l (level + 1) ++
      (spellMembers l (level + 1) ms ++ (l.lead level ++ ['\x7d']))))))
  | v => writeAtom v []

def spellItems (l : Layout) (level : Nat) : List Json → List Char
  | [] => []
  | v :: vs => ',' :: (l.lead level ++ (v.spell l level ++ spellItems l level vs))

def spellMembers (l : Layout) (level : Nat) : List (String × Json) → List Char
  | [] => []
  | (k, v) :: ms =>
    ',' :: (l.lead level ++ '"' :: (quoted k ++ ':' :: (l.gap ++ (v.spell l level ++
      spellMembers l level ms))))
end

theorem writeAtom_eq (v : Json) (rest : List Char) : writeAtom v rest = writeAtom v [] ++ rest := by
  cases v with
  | bool b => cases b <;> simp [writeAtom, writeWord]
  | int i =>
    simp only [writeAtom, writeInt]
    split <;> simp
  | str s => simp [writeAtom, writeText_eq]
  | _ => simp [writeAtom, writeWord]

mutual
theorem write_eq_spell (v : Json) (level : Nat) (rest : List Char) :
    v.write rest = v.spell .tight level ++ rest := by
  match v with
  | .arr [] | .row [] | .obj [] => rfl
  | .arr (v :: vs) | .row (v :: vs) =>
    simp only [write, writeItems, write_eq_spell v (level + 1), writeMoreItems_eq vs (level + 1),
      spell, Layout.tight, List.nil_append, List.cons_append, List.append_assoc]
  | .obj ((k, v) :: ms) =>
    simp only [write, writeMembers, writeText_eq, write_eq_spell v (level + 1),
      writeMoreMembers_eq ms (level + 1), spell, Layout.tight, List.nil_append, List.cons_append,
      List.append_assoc]
  | .null => exact writeAtom_eq .null rest
  | .bool b => exact writeAtom_eq (.bool b) rest
  | .int i => exact writeAtom_eq (.int i) rest
  | .real => exact writeAtom_eq .real rest
  | .str s => exact writeAtom_eq (.str s) rest
  | .unreadable => exact writeAtom_eq .unreadable rest

theorem writeMoreItems_eq (vs : List Json) (level : Nat) (rest : List Char) :
    writeMoreItems vs rest = spellItems .tight level vs ++ rest := by
  match vs with
  | [] => rfl
  | v :: vs =>
    simp only [writeMoreItems, write_eq_spell v level, writeMoreItems_eq vs level, spellItems,
      Layout.tight, List.nil_append, List.cons_append, List.append_assoc]

theorem writeMoreMembers_eq (ms : List (String × Json)) (level : Nat) (rest : List Char) :
    writeMoreMembers ms rest = spellMembers .tight level ms ++ rest := by
  match ms with
  | [] => rfl
  | (k, v) :: ms =>
    simp only [writeMoreMembers, writeText_eq, write_eq_spell v level, writeMoreMembers_eq ms level,
      spellMembers, Layout.tight, List.nil_append, List.cons_append, List.append_assoc]
end

mutual
theorem writeIndented_eq_spell (v : Json) (level : Nat) (rest : List Char) :
    v.writeIndented level rest = v.spell .indenting level ++ rest := by
  match v with
  | .arr [] | .row [] | .obj [] => rfl
  | .arr (v :: vs) | .row (v :: vs) =>
    simp only [writeIndented, writeIndented_eq_spell v (level + 1),
      writeIndentedItems_eq vs (level + 1), spell, Layout.indenting, newline, List.append_nil,
      List.nil_append, List.cons_append, List.append_assoc]
  | .obj ((k, v) :: ms) =>
    simp only [writeIndented, writeText_eq, writeIndented_eq_spell v (level + 1),
      writeIndentedMembers_eq ms (level + 1), spell, Layout.indenting, newline, List.append_nil,
      List.nil_append, List.cons_append, List.append_assoc]
  | .null => exact writeAtom_eq .null rest
  | .bool b => exact writeAtom_eq (.bool b) rest
  | .int i => exact writeAtom_eq (.int i) rest
  | .real => exact writeAtom_eq .real rest
  | .str s => exact writeAtom_eq (.str s) rest
  | .unreadable => exact writeAtom_eq .unreadable rest

theorem writeIndentedItems_eq (vs : List Json) (level : Nat) (rest : List Char) :
    writeIndentedItems level vs rest = spellItems .indenting level vs ++ rest := by
  match vs with
  | [] => rfl
  | v :: vs =>
    simp only [writeIndentedItems, writeIndented_eq_spell v level, writeIndentedItems_eq vs level,
      spellItems, Layout.indenting, newline, List.append_nil, List.cons_append, List.append_assoc]

theorem writeIndentedMembers_eq (ms : List (String × Json)) (level : Nat) (rest : List Char) :
    writeIndentedMembers level ms rest = spellMembers .indenting level ms ++ rest := by
  match ms with
  | [] => rfl
  | (k, v) :: ms =>
    simp only [writeIndentedMembers, writeText_eq, writeIndented_eq_spell v level,
      writeIndentedMembers_eq ms level, spellMembers, Layout.indenting, newline, List.append_nil,
      List.nil_append, List.cons_append, List.append_assoc]
end

/-! ### Reading back -/

mutual
/-- Every part is one that a reader keeps as it is. -/
def Plain : Json → Prop
  | .null | .bool _ | .str _ => True
  | .int i => Width.least64 ≤ i ∧ i < Width.end64
  | .arr items => PlainItems items
  | .obj members => PlainMembers members
  | _ => False

def PlainItems : List Json → Prop
  | [] => True
  | v :: vs => v.Plain ∧ PlainItems vs

def PlainMembers : List (String × Json) → Prop
  | [] => True
  | (_, v) :: ms => v.Plain ∧ PlainMembers ms
end

theorem skipBlank_append {blanks : List Char} (h : ∀ c ∈ blanks, isBlank c = true)
    (cs : List Char) : skipBlank (blanks ++ cs) = skipBlank cs :=
  List.dropWhile_append_of_pos h

theorem readValue_append {blanks : List Char} (h : ∀ c ∈ blanks, isBlank c = true)
    (fuel room : Nat) (cs : List Char) :
    readValue fuel room (blanks ++ cs) = readValue fuel room cs := by
  cases fuel with
  | zero => simp only [readValue]
  | succ fuel => simp only [readValue, skipBlank_append h]

theorem expect_append {blanks : List Char} (h : ∀ c ∈ blanks, isBlank c = true) (mark : Char)
    (cs : List Char) : expect mark (blanks ++ cs) = expect mark cs := by
  simp only [expect, skipBlank_append h]

theorem expect_self {mark : Char} (h : isBlank mark = false) (rest : List Char) :
    expect mark (mark :: rest) = some rest := by simp [expect, skipBlank_cons h]

theorem expect_of_ne {c mark : Char} (h : isBlank c = false) (hne : c ≠ mark) (rest : List Char) :
    expect mark (c :: rest) = none := by simp [expect, skipBlank_cons h, hne]

/-- How the text of a value may begin. -/
def opens (c : Char) : Bool :=
  c.isDigit || c == '-' || c == '"' || c == '[' || c == '\x7b' || c == 'n' || c == 't' || c == 'f'

theorem isBlank_of_opens {c : Char} (h : opens c = true) : isBlank c = false := by
  rw [isBlank]
  by_contra hblank
  simp only [Bool.not_eq_false, Bool.or_eq_true, beq_iff_eq] at hblank
  obtain ((rfl | rfl) | rfl) | rfl := hblank <;> revert h <;> decide

theorem ne_of_opens {c mark : Char} (h : opens c = true) (hmark : opens mark = false) :
    c ≠ mark := by
  rintro rfl
  rw [h] at hmark
  cases hmark

theorem digits_opens (n : Nat) :
    ∃ c cs, Nat.toDigits 10 n = c :: cs ∧ c.isDigit = true := by
  cases hdigits : Nat.toDigits 10 n with
  | nil => exact absurd hdigits Nat.toDigits_ne_nil
  | cons c cs => exact ⟨c, cs, rfl, isDigit_of_mem_digits (hdigits ▸ List.mem_cons_self)⟩

theorem writeInt_opens (i : Int) (rest : List Char) :
    ∃ c cs, writeInt i rest = c :: cs ∧ (c = '-' ∨ c.isDigit = true) := by
  obtain ⟨c, cs, hdigits, hc⟩ := digits_opens i.natAbs
  unfold writeInt
  split
  · exact ⟨'-', _, rfl, .inl rfl⟩
  · exact ⟨c, cs ++ rest, by rw [hdigits]; rfl, .inr hc⟩

theorem spell_opens (l : Layout) (level : Nat) {v : Json} (h : v.Plain) :
    ∃ c cs, v.spell l level = c :: cs ∧ opens c = true := by
  match v with
  | .null => exact ⟨'n', _, rfl, by decide⟩
  | .bool true => exact ⟨'t', _, rfl, by decide⟩
  | .bool false => exact ⟨'f', _, rfl, by decide⟩
  | .int i =>
    obtain ⟨c, cs, hi, hc⟩ := writeInt_opens i []
    refine ⟨c, cs, hi, ?_⟩
    obtain rfl | hdigit := hc
    · decide
    · simp [opens, hdigit]
  | .str s => exact ⟨'"', _, rfl, by decide⟩
  | .arr [] | .arr (_ :: _) => exact ⟨'[', _, rfl, by decide⟩
  | .obj [] | .obj ((_, _) :: _) => exact ⟨'\x7b', _, rfl, by decide⟩

/-- A number begins with none of the marks of the other values. -/
theorem readValue_writeInt {i : Int} (hplain : (Json.int i).Plain) (fuel room : Nat)
    {rest : List Char} (hrest : Stops rest) :
    readValue (fuel + 1) room (writeInt i rest) = some (.int i, rest) := by
  obtain ⟨c, cs, hi, hc⟩ := writeInt_opens i rest
  have hopens : opens c = true := by
    obtain rfl | hdigit := hc
    · decide
    · simp [opens, hdigit]
  have hmarks : ∀ mark ∈ ['"', '[', '\x7b', 'n', 't', 'f'], c ≠ mark := by
    rintro mark hmark rfl
    obtain rfl | hdigit := hc
    · revert hmark
      decide
    · simp only [List.mem_cons, List.not_mem_nil, or_false] at hmark
      obtain rfl | rfl | rfl | rfl | rfl | rfl := hmark <;> revert hdigit <;> decide
  have hread := readNumber_writeInt hplain.1 hplain.2 hrest
  rw [hi] at hread ⊢
  simp only [readValue, skipBlank_cons (isBlank_of_opens hopens)]
  simp only [List.forall_mem_cons] at hmarks
  obtain ⟨h₁, h₂, h₃, h₄, h₅, h₆, -⟩ := hmarks
  simp only [h₁, h₂, h₃, h₄, h₅, h₆, if_false, hread]

theorem sealed_of_lt {room height : Nat} (h : height < room) (v : Json) : sealed room v = v :=
  if_neg (Nat.ne_of_gt (Nat.lt_of_le_of_lt (Nat.zero_le height) h))

theorem length_pos_of_opens {cs : List Char} (h : ∃ c tail, cs = c :: tail ∧ opens c = true) :
    0 < cs.length := by
  obtain ⟨c, tail, rfl, -⟩ := h
  exact Nat.succ_pos _

theorem readItems_append {blanks : List Char} (h : ∀ c ∈ blanks, isBlank c = true)
    (fuel room : Nat) (cs : List Char) :
    readItems fuel room (blanks ++ cs) = readItems fuel room cs := by
  cases fuel with
  | zero => simp only [readItems]
  | succ fuel => simp only [readItems, readValue_append h]

theorem readMembers_append {blanks : List Char} (h : ∀ c ∈ blanks, isBlank c = true)
    (fuel room : Nat) (cs : List Char) :
    readMembers fuel room (blanks ++ cs) = readMembers fuel room cs := by
  cases fuel with
  | zero => simp only [readMembers]
  | succ fuel => simp only [readMembers, expect_append h]

/-- A container that is not empty does not close at once. -/
theorem expect_of_opens {cs : List Char} (h : ∃ c tail, cs = c :: tail ∧ opens c = true)
    {mark : Char} (hmark : opens mark = false) (rest : List Char) :
    expect mark (cs ++ rest) = none := by
  obtain ⟨c, tail, rfl, hopens⟩ := h
  exact expect_of_ne (isBlank_of_opens hopens) (ne_of_opens hopens hmark) _

theorem readValue_text (fuel room : Nat) (s : String) (rest : List Char) :
    readValue (fuel + 1) room ('"' :: (quoted s ++ rest)) = some (.str s, rest) := by
  have hquote : isBlank '"' = false := by decide
  simp only [readValue, skipBlank_cons hquote, if_true, readText_quoted, Option.map_some,
    Option.getD_some]

theorem readValue_bracket (fuel room : Nat) (rest : List Char) :
    readValue (fuel + 1) room ('[' :: rest) =
      match expect ']' rest with
      | some rest => some (sealed room (.arr []), rest)
      | none =>
        (readItems fuel (room - 1) rest).map fun (vs, rest) => (sealed room (.arr vs), rest) := by
  have hbracket : isBlank '[' = false := by decide
  rw [readValue, skipBlank_cons hbracket]
  rfl

theorem readValue_brace (fuel room : Nat) (rest : List Char) :
    readValue (fuel + 1) room ('\x7b' :: rest) =
      match expect '\x7d' rest with
      | some rest => some (sealed room (.obj []), rest)
      | none =>
        (readMembers fuel (room - 1) rest).map fun (ms, rest) =>
          (sealed room ((ms.map Json.obj).getD .unreadable), rest) := by
  have hbrace : isBlank '\x7b' = false := by decide
  rw [readValue, skipBlank_cons hbrace]
  rfl

theorem stops_append {blanks : List Char} (h : ∀ c ∈ blanks, isBlank c = true) {mark : Char}
    (hmark : mark.isDigit = false ∧ isRealMark mark = false) (rest : List Char) :
    Stops (blanks ++ mark :: rest) := by
  cases blanks with
  | nil => exact stops_cons hmark.1 hmark.2 rest
  | cons c blanks =>
    have hblank := h c List.mem_cons_self
    simp only [isBlank, Bool.or_eq_true, beq_iff_eq] at hblank
    obtain ((rfl | rfl) | rfl) | rfl := hblank <;> exact stops_cons (by decide) (by decide) _

/-- The value is read back from its text, whatever follows. -/
def Reads (l : Layout) (v : Json) : Prop :=
  ∀ (fuel room level : Nat) (rest : List Char), v.height ≤ room →
    2 * (v.spell l level).length ≤ fuel → Stops rest →
    readValue fuel room (v.spell l level ++ rest) = some (v, rest)

section
variable {l : Layout} (hl : l.Blank)
include hl

mutual
theorem reads_spell (v : Json) (hplain : v.Plain) : v.Reads l := by
  intro fuel room level rest hroom hfuel hrest
  have hlength := length_pos_of_opens (spell_opens l level hplain)
  obtain ⟨fuel, rfl⟩ : ∃ n, fuel = n + 1 := ⟨fuel - 1, by omega⟩
  match v with
  | .null | .bool true | .bool false => rfl
  | .int i =>
    have htext : (Json.int i).spell l level ++ rest = writeInt i rest :=
      (writeAtom_eq (.int i) rest).symm
    rw [htext]
    exact readValue_writeInt hplain fuel room hrest
  | .str s =>
    have htext : (Json.str s).spell l level ++ rest = '"' :: (quoted s ++ rest) :=
      (writeAtom_eq (.str s) rest).symm.trans (writeText_eq s rest)
    rw [htext]
    exact readValue_text fuel room s rest
  | .arr [] =>
    have hopen : 0 < room := hroom
    rw [spell, List.cons_append, List.singleton_append, readValue_bracket, expect_self (by decide)]
    dsimp only
    rw [sealed_of_lt hopen]
  | .arr (v :: vs) =>
    have hheight : heightItems (v :: vs) < room := hroom
    simp only [spell, List.length_cons, List.length_append] at hfuel
    have hitems := readItems_spell vs hplain.2 (reads_spell v hplain.1) fuel (room - 1) (level + 1)
      level rest (Nat.le_sub_one_of_lt hheight) (by rw [List.length_append]; omega)
    simp only [spell, List.cons_append, List.append_assoc, List.nil_append]
    rw [readValue_bracket, expect_append (hl.lead _),
      expect_of_opens (spell_opens l (level + 1) hplain.1) (by decide)]
    simp only [readItems_append (hl.lead _), hitems, Option.map_some,
      sealed_of_lt hheight]
  | .obj [] =>
    have hopen : 0 < room := hroom
    rw [spell, List.cons_append, List.singleton_append, readValue_brace, expect_self (by decide)]
    dsimp only
    rw [sealed_of_lt hopen]
  | .obj ((k, v) :: ms) =>
    have hheight : heightMembers ((k, v) :: ms) < room := hroom
    simp only [spell, List.length_cons, List.length_append] at hfuel
    have hmembers := readMembers_spell ms hplain.2 k (reads_spell v hplain.1) fuel (room - 1)
      (level + 1) level rest (Nat.le_sub_one_of_lt hheight) (by rw [List.length_append]; omega)
    simp only [spell, List.cons_append, List.append_assoc, List.nil_append]
    rw [readValue_brace, expect_append (hl.lead _), expect_of_ne (by decide) (by decide)]
    simp only [readMembers_append (hl.lead _), hmembers, Option.map_some, Option.getD_some,
      sealed_of_lt hheight]

theorem readItems_spell (vs : List Json) (hplain : PlainItems vs) {v : Json} (hv : v.Reads l)
    (fuel room level outer : Nat) (rest : List Char) (hroom : heightItems (v :: vs) ≤ room)
    (hfuel : 2 * (v.spell l level ++ spellItems l level vs).length < fuel) :
    readItems fuel room
      (v.spell l level ++ (spellItems l level vs ++ (l.lead outer ++ ']' :: rest))) =
        some (v :: vs, rest) := by
  obtain ⟨fuel, rfl⟩ : ∃ n, fuel = n + 1 := ⟨fuel - 1, by omega⟩
  have hhead : v.height ≤ room := Nat.le_trans (Nat.le_max_left _ _) hroom
  have htail : heightItems vs ≤ room := Nat.le_trans (Nat.le_max_right _ _) hroom
  have hbracket : isBlank ']' = false := by decide
  have hcomma : isBlank ',' = false := by decide
  rw [List.length_append] at hfuel
  match vs with
  | [] =>
    have hlast := hv fuel room level (l.lead outer ++ ']' :: rest) hhead (by omega)
      (stops_append (hl.lead outer) (by decide) rest)
    simp only [spellItems, List.nil_append, readItems, hlast, expect_append (hl.lead _),
      expect_self hbracket]
  | w :: ws =>
    simp only [spellItems, List.length_cons, List.length_append] at hfuel
    have hfirst := hv fuel room level (',' :: (l.lead level ++ (w.spell l level ++
      (spellItems l level ws ++ (l.lead outer ++ ']' :: rest))))) hhead (by omega)
      (stops_cons (by decide) (by decide) _)
    have hmore := readItems_spell ws hplain.2 (reads_spell w hplain.1) fuel room level outer rest
      htail (by rw [List.length_append]; omega)
    simp only [spellItems, List.cons_append, List.append_assoc, readItems, hfirst,
      expect_of_ne hcomma (show ',' ≠ ']' by decide), expect_self hcomma,
      readItems_append (hl.lead _), hmore, Option.map_some]

theorem readMembers_spell (ms : List (String × Json)) (hplain : PlainMembers ms) (k : String)
    {v : Json} (hv : v.Reads l) (fuel room level outer : Nat) (rest : List Char)
    (hroom : heightMembers ((k, v) :: ms) ≤ room)
    (hfuel : 2 * (v.spell l level ++ spellMembers l level ms).length < fuel) :
    readMembers fuel room ('"' :: (quoted k ++ ':' :: (l.gap ++ (v.spell l level ++
      (spellMembers l level ms ++ (l.lead outer ++ '\x7d' :: rest)))))) =
        some (some ((k, v) :: ms), rest) := by
  obtain ⟨fuel, rfl⟩ : ∃ n, fuel = n + 1 := ⟨fuel - 1, by omega⟩
  have hhead : v.height ≤ room := Nat.le_trans (Nat.le_max_left _ _) hroom
  have htail : heightMembers ms ≤ room := Nat.le_trans (Nat.le_max_right _ _) hroom
  have hquote : isBlank '"' = false := by decide
  have hcolon : isBlank ':' = false := by decide
  have hbrace : isBlank '\x7d' = false := by decide
  have hcomma : isBlank ',' = false := by decide
  rw [List.length_append] at hfuel
  match ms with
  | [] =>
    have hlast := hv fuel room level (l.lead outer ++ '\x7d' :: rest) hhead (by omega)
      (stops_append (hl.lead outer) (by decide) rest)
    simp only [spellMembers, List.nil_append, readMembers, expect_self hquote, readText_quoted,
      expect_self hcolon, readValue_append hl.gap, hlast, expect_append (hl.lead _),
      expect_self hbrace]
    rfl
  | (j, w) :: ws =>
    simp only [spellMembers, List.length_cons, List.length_append] at hfuel
    have hfirst := hv fuel room level (',' :: (l.lead level ++ ('"' :: (quoted j ++
      ':' :: (l.gap ++ (w.spell l level ++ (spellMembers l level ws ++
        (l.lead outer ++ '\x7d' :: rest)))))))) hhead (by omega)
      (stops_cons (by decide) (by decide) _)
    have hmore := readMembers_spell ws hplain.2 j (reads_spell w hplain.1) fuel room level outer
      rest htail (by rw [List.length_append]; omega)
    simp only [spellMembers, List.cons_append, List.append_assoc, readMembers, expect_self hquote,
      readText_quoted, expect_self hcolon, readValue_append hl.gap, hfirst,
      expect_of_ne hcomma (show ',' ≠ '\x7d' by decide), expect_self hcomma,
      readMembers_append (hl.lead _), hmore, Option.map_some]
    rfl
end

theorem parse_spell {v : Json} (hplain : v.Plain) (hheight : v.height ≤ maxDepth) (level : Nat) :
    parse (String.ofList (v.spell l level)) = some v := by
  have hread := reads_spell hl v hplain (2 * (v.spell l level).length + 2) maxDepth level []
    hheight (Nat.le_add_right _ 2) stops_nil
  rw [List.append_nil] at hread
  simp [parse, hread, skipBlank]

end

/-- A value that does not nest too deep is read back from its compact text. -/
theorem parse_compact {v : Json} (hplain : v.Plain) (hheight : v.height ≤ maxDepth) :
    parse v.compact = some v := by
  rw [compact, write_eq_spell v 0, List.append_nil]
  exact parse_spell Layout.blank_tight hplain hheight 0

/-- So it is from its indented one. -/
theorem parse_indented {v : Json} (hplain : v.Plain) (hheight : v.height ≤ maxDepth) :
    parse v.indented = some v := by
  rw [indented, writeIndented_eq_spell v 0, List.append_nil]
  exact parse_spell Layout.blank_indenting hplain hheight 0

end HexDuel.Json
