import HexDuel.Library
import HexDuel.Proofs.Literals

/-!
What a deck list says. Remarks and orders are given as a grammar of trimmed lines; a line that is
neither has one error, and the first such line decides the error of the list.
-/

set_option autoImplicit false

namespace HexDuel.Library

open Text

section

variable {l : Library} {number n : Nat} {name : String} {line body : List Char}
  {lines : List (List Char)} {entries : List (Nat × String)} {e : LibraryError}

/-! ### The grammar -/

/-- A line and what it holds between the white space at its ends. -/
inductive Holds : List Char → List Char → Prop where
  | padded {front body back : List Char} : Blank front → Firm body → Blank back →
    Holds (front ++ (body ++ back)) body

/-- What a deck list may say beside its orders: nothing, or whatever follows `#` or `//`. -/
inductive Remark : List Char → Prop where
  | nothing : Remark []
  | hash (rest : List Char) : Remark ('#' :: rest)
  | slashes (rest : List Char) : Remark ('/' :: '/' :: rest)

/-- The library has a card of this name. -/
def Has (l : Library) (name : String) : Prop := ∃ e ∈ l.entries, e.name = name

/-- A number of 64 bits. -/
def Counts (text : List Char) (n : Nat) : Prop := Unsigned text n ∧ n < Width.end64

/-- A count, at least one space and the name of a card. -/
inductive Order (l : Library) : List Char → Nat → String → Prop where
  | entry {count gap : List Char} {n : Nat} {name : String} : Counts count n → Blank gap →
    Firm name.toList → l.Has name → Order l (count ++ ' ' :: (gap ++ name.toList)) n name

/-- What is wrong with a line that is neither a remark nor an order: there is no space in it, what
stands before the first space is not a count, or what stands behind it is not the name of a card. -/
inductive Flaw (l : Library) (number : Nat) : List Char → LibraryError → Prop where
  | format {body : List Char} : ' ' ∉ body → Flaw l number body (.lineFormat number)
  | count {count rest : List Char} : ' ' ∉ count → (∀ n, ¬ Counts count n) →
    Flaw l number (count ++ ' ' :: rest) (.lineCount number (String.ofList count))
  | name {count gap : List Char} {n : Nat} {name : String} : Counts count n → Blank gap →
    Firm name.toList → ¬ l.Has name →
    Flaw l number (count ++ ' ' :: (gap ++ name.toList)) (.notFound name)

/-- The line is skipped or valid. -/
def Sound (l : Library) (line : List Char) : Prop :=
  ∃ body, Holds line body ∧ (Remark body ∨ ∃ n name, l.Order body n name)

/-- The line is not sound, and this is its error. -/
def Flawed (l : Library) (number : Nat) (line : List Char) (e : LibraryError) : Prop :=
  ¬ l.Sound line ∧ ∃ body, Holds line body ∧ l.Flaw number body e

/-- The orders of a deck list, line by line. -/
inductive Listing (l : Library) : List (List Char) → List (Nat × String) → Prop where
  | none : Listing l [] []
  | remark {line body : List Char} {lines : List (List Char)} {entries : List (Nat × String)} :
    Holds line body → Remark body → Listing l lines entries → Listing l (line :: lines) entries
  | order {line body : List Char} {n : Nat} {name : String} {lines : List (List Char)}
    {entries : List (Nat × String)} : Holds line body → l.Order body n name →
    Listing l lines entries → Listing l (line :: lines) ((n, name) :: entries)

/-- Every name as often as its count says. -/
def expand (entries : List (Nat × String)) : List String :=
  entries.flatMap fun (n, name) => List.replicate n name

theorem holds_iff : Holds line body ↔ trim line = body := by
  constructor
  · rintro ⟨hfront, hbody, hback⟩
    exact trim_append hfront hbody hback
  · rintro rfl
    obtain ⟨front, back, hfront, hback, hline⟩ := exists_trim line
    have hpadded := Holds.padded hfront (firm_trim line) hback
    rwa [← hline] at hpadded

theorem holds_trim (line : List Char) : Holds line (trim line) := holds_iff.2 rfl

theorem nat64?_eq_some_iff {text : List Char} : nat64? text = some n ↔ Counts text n := by
  unfold nat64? Counts
  rw [Option.filter_eq_some_iff, nat?_eq_some_iff, decide_eq_true_iff]

theorem nat64?_eq_none_iff {text : List Char} : nat64? text = none ↔ ∀ n, ¬ Counts text n := by
  simp only [← nat64?_eq_some_iff, Option.eq_none_iff_forall_ne_some, ne_eq]

theorem Counts.space_not_mem {text : List Char} (h : Counts text n) : ' ' ∉ text := by
  intro hspace
  obtain h | h | h := (Signed.unsigned h.1).mem _ hspace <;> revert h <;> decide

theorem isSkipped_iff : isSkipped body = true ↔ Remark body := by
  constructor
  · intro h
    match body with
    | [] => exact .nothing
    | [c] =>
      obtain rfl : c = '#' := by simpa [isSkipped] using h
      exact .hash []
    | c :: d :: rest =>
      obtain rfl | ⟨rfl, rfl⟩ : c = '#' ∨ '/' = c ∧ '/' = d := by simpa [isSkipped] using h
      · exact .hash _
      · exact .slashes rest
  · rintro (_ | rest | rest) <;> simp [isSkipped]

theorem Remark.head (h : Remark body) : ∀ c ∈ body.head?, c = '#' ∨ c = '/' := by
  cases h <;> simp

/-- Orders start with a digit or a plus sign. -/
theorem Order.not_remark (h : l.Order body n name) : ¬ Remark body := by
  obtain ⟨hcount, -, -, -⟩ := h
  rename_i count gap
  obtain ⟨c, digits, rfl⟩ := List.exists_cons_of_ne_nil hcount.1.ne_nil
  have hc := (Signed.unsigned hcount.1).mem c List.mem_cons_self
  intro hremark
  obtain rfl | rfl := hremark.head c rfl <;> revert hc <;> decide

/-! ### One line -/

theorem get_of_has (h : l.Has name) : ∃ entry, l.get name = .ok entry := by
  obtain ⟨entry, hentry, rfl⟩ := h
  have hsome : (l.find? entry.name).isSome = true := by
    rw [find?, List.find?_isSome]
    exact ⟨entry, hentry, by simp⟩
  obtain ⟨found, hfound⟩ := Option.isSome_iff_exists.1 hsome
  exact ⟨found, by rw [get, hfound]; rfl⟩

theorem get_of_not_has (h : ¬ l.Has name) : l.get name = .error (.notFound name) := by
  have hnone : l.find? name = none := by
    rw [find?, List.find?_eq_none]
    exact fun entry hentry heq => h ⟨entry, hentry, by simpa using heq⟩
  rw [get, hnone]
  rfl

theorem parseLine_append {count gap : List Char} (hcount : Counts count n) (hgap : Blank gap)
    (hname : Firm name.toList) :
    l.parseLine number (count ++ ' ' :: (gap ++ name.toList)) =
      (l.get name).map fun _ => (n, name) := by
  unfold parseLine
  rw [cut?_append hcount.space_not_mem]
  simp only [nat64?_eq_some_iff.2 hcount, trim_blank_append hgap, trim_eq_self hname,
    String.ofList_toList]
  cases l.get name <;> rfl

theorem Order.parseLine (h : l.Order body n name) : l.parseLine number body = .ok (n, name) := by
  obtain ⟨hcount, hgap, hname, hhas⟩ := h
  obtain ⟨entry, hentry⟩ := get_of_has hhas
  rw [parseLine_append hcount hgap hname, hentry]
  rfl

theorem Flaw.parseLine (h : l.Flaw number body e) : l.parseLine number body = .error e := by
  cases h with
  | format hspace =>
    unfold Library.parseLine
    rw [cut?_of_not_mem hspace]
    rfl
  | count hspace hcount =>
    unfold Library.parseLine
    rw [cut?_append hspace]
    simp only [nat64?_eq_none_iff.2 hcount]
    rfl
  | name hcount hgap hname hhas =>
    rw [parseLine_append hcount hgap hname, get_of_not_has hhas]
    rfl

/-- What a line holds is an order or has a flaw. -/
theorem order_or_flaw (l : Library) (number : Nat) (hbody : Firm body) :
    (∃ n name, l.Order body n name) ∨ ∃ e, l.Flaw number body e := by
  by_cases hspace : ' ' ∈ body
  · obtain ⟨count, rest, rfl, hcount⟩ := List.eq_append_cons_of_mem hspace
    by_cases hcounts : ∃ n, Counts count n
    · obtain ⟨n, hn⟩ := hcounts
      obtain ⟨gap, back, hgap, hback, hrest⟩ := exists_trim rest
      -- the line is trimmed, so that the name behind the first space ends with it
      obtain rfl : back = [] := by
        have hfirm : Firm ((count ++ ' ' :: (gap ++ trim rest)) ++ back) := by
          rw [hrest] at hbody
          simpa using hbody
        exact hfirm.eq_nil_of_blank hback
      rw [List.append_nil, ← String.toList_ofList (l := trim rest)] at hrest
      have hname : Firm (String.ofList (trim rest)).toList := by simpa using firm_trim rest
      rw [hrest]
      by_cases hhas : l.Has (String.ofList (trim rest))
      · exact .inl ⟨n, _, .entry hn hgap hname hhas⟩
      · exact .inr ⟨_, .name hn hgap hname hhas⟩
    · exact .inr ⟨_, .count hcount (not_exists.1 hcounts)⟩
  · exact .inr ⟨_, .format hspace⟩

theorem flawed_of_not_sound (number : Nat) (h : ¬ l.Sound line) : ∃ e, l.Flawed number line e := by
  have hholds := holds_trim line
  obtain ⟨n, name, horder⟩ | ⟨e, hflaw⟩ := order_or_flaw l number (firm_trim line)
  · exact absurd ⟨_, hholds, .inr ⟨n, name, horder⟩⟩ h
  · exact ⟨e, h, _, hholds, hflaw⟩

/-- The flawed lines are those that are not skipped and then refused. -/
theorem flawed_iff :
    l.Flawed number line e ↔
      isSkipped (trim line) = false ∧ l.parseLine number (trim line) = .error e := by
  constructor
  · rintro ⟨hsound, body, hline, hflaw⟩
    rw [holds_iff.1 hline]
    refine ⟨Bool.eq_false_iff.2 fun hskipped => hsound ?_, hflaw.parseLine⟩
    exact ⟨body, hline, .inl (isSkipped_iff.1 hskipped)⟩
  · rintro ⟨hskipped, hparse⟩
    have hsound : ¬ l.Sound line := by
      rintro ⟨body, hline, hremark | ⟨n, name, horder⟩⟩
      · rw [holds_iff.1 hline, isSkipped_iff.2 hremark] at hskipped
        cases hskipped
      · rw [holds_iff.1 hline, horder.parseLine] at hparse
        cases hparse
    obtain ⟨found, -, body, hline, hflaw⟩ := flawed_of_not_sound number hsound
    rw [holds_iff.1 hline, hflaw.parseLine] at hparse
    obtain rfl := Except.error.inj hparse
    exact ⟨hsound, body, hline, hflaw⟩

/-! ### All lines -/

theorem parseLines_remark (hline : Holds line body) (hbody : Remark body) :
    l.parseLines number (line :: lines) = l.parseLines (number + 1) lines := by
  rw [parseLines, holds_iff.1 hline, if_pos (isSkipped_iff.2 hbody)]

theorem parseLines_order (hline : Holds line body) (hbody : l.Order body n name) :
    l.parseLines number (line :: lines) =
      (l.parseLines (number + 1) lines).map (List.replicate n name ++ ·) := by
  rw [parseLines, holds_iff.1 hline, if_neg (mt isSkipped_iff.1 hbody.not_remark),
    hbody.parseLine]
  cases l.parseLines (number + 1) lines <;> rfl

theorem parseLines_flawed (h : l.Flawed number line e) :
    l.parseLines number (line :: lines) = .error e := by
  obtain ⟨hskipped, hparse⟩ := flawed_iff.1 h
  rw [parseLines, if_neg (by simp [hskipped]), hparse]
  rfl

/-- A sound line keeps the error of the lines behind it. -/
theorem parseLines_sound (h : l.Sound line) :
    l.parseLines number (line :: lines) = .error e ↔
      l.parseLines (number + 1) lines = .error e := by
  obtain ⟨body, hline, hremark | ⟨n, name, horder⟩⟩ := h
  · rw [parseLines_remark hline hremark]
  · rw [parseLines_order hline horder]
    cases l.parseLines (number + 1) lines <;> simp [Except.map]

theorem Listing.parseLines (h : l.Listing lines entries) (number : Nat) :
    l.parseLines number lines = .ok (expand entries) := by
  induction h generalizing number with
  | none => rfl
  | remark hline hremark _ ih => rw [parseLines_remark hline hremark, ih]
  | order hline horder _ ih =>
    rw [parseLines_order hline horder, ih]
    rfl

theorem Listing.sound (h : l.Listing lines entries) : ∀ line ∈ lines, l.Sound line := by
  induction h with
  | none => simp
  | remark hline hremark _ ih => exact List.forall_mem_cons.2 ⟨⟨_, hline, .inl hremark⟩, ih⟩
  | order hline horder _ ih => exact List.forall_mem_cons.2 ⟨⟨_, hline, .inr ⟨_, _, horder⟩⟩, ih⟩

theorem listing_of_parseLines {names : List String} (h : l.parseLines number lines = .ok names) :
    ∃ entries, l.Listing lines entries := by
  induction lines generalizing number names with
  | nil => exact ⟨[], .none⟩
  | cons line lines ih =>
    by_cases hsound : l.Sound line
    · obtain ⟨body, hline, hremark | ⟨n, name, horder⟩⟩ := hsound
      · rw [parseLines_remark hline hremark] at h
        obtain ⟨entries, hentries⟩ := ih h
        exact ⟨entries, .remark hline hremark hentries⟩
      · rw [parseLines_order hline horder] at h
        cases hrest : l.parseLines (number + 1) lines with
        | error e =>
          rw [hrest] at h
          cases h
        | ok rest =>
          obtain ⟨entries, hentries⟩ := ih hrest
          exact ⟨_, .order hline horder hentries⟩
    · obtain ⟨e, he⟩ := flawed_of_not_sound number hsound
      rw [parseLines_flawed he] at h
      cases h

theorem parseLines_eq_ok_iff {names : List String} :
    l.parseLines number lines = .ok names ↔
      ∃ entries, l.Listing lines entries ∧ names = expand entries := by
  constructor
  · intro h
    obtain ⟨entries, hentries⟩ := listing_of_parseLines h
    rw [hentries.parseLines] at h
    exact ⟨entries, hentries, (Except.ok.inj h).symm⟩
  · rintro ⟨entries, hentries, rfl⟩
    exact hentries.parseLines number

theorem parseLines_eq_error_iff :
    l.parseLines number lines = .error e ↔
      ∃ before line after, lines = before ++ line :: after ∧ (∀ x ∈ before, l.Sound x) ∧
        l.Flawed (number + before.length) line e := by
  constructor
  · intro h
    induction lines generalizing number with
    | nil => cases h
    | cons line lines ih =>
      by_cases hsound : l.Sound line
      · obtain ⟨before, flawed, after, rfl, hbefore, hflawed⟩ := ih ((parseLines_sound hsound).1 h)
        refine ⟨line :: before, flawed, after, rfl, List.forall_mem_cons.2 ⟨hsound, hbefore⟩, ?_⟩
        rwa [List.length_cons, Nat.add_comm before.length, ← Nat.add_assoc]
      · obtain ⟨found, hfound⟩ := flawed_of_not_sound number hsound
        obtain rfl : found = e := Except.error.inj ((parseLines_flawed hfound).symm.trans h)
        exact ⟨[], line, lines, rfl, by simp, hfound⟩
  · rintro ⟨before, line, after, rfl, hbefore, hflawed⟩
    induction before generalizing number with
    | nil => exact parseLines_flawed hflawed
    | cons x before ih =>
      obtain ⟨hx, hbefore⟩ := List.forall_mem_cons.1 hbefore
      refine (parseLines_sound hx).2 (ih hbefore ?_)
      rwa [List.length_cons, Nat.add_comm before.length, ← Nat.add_assoc] at hflawed

theorem parseLines_map_trim (l : Library) (number : Nat) (lines : List (List Char)) :
    l.parseLines number (lines.map trim) = l.parseLines number lines := by
  induction lines generalizing number with
  | nil => rfl
  | cons line lines ih => rw [List.map_cons, parseLines, parseLines, trim_trim, ih]

theorem parseDeckList_eq {text : String} (h : Lines lines text.toList) :
    l.parseDeckList text = l.parseLines 1 lines := by
  rw [parseDeckList, ← parseLines_map_trim, h.map_trim, parseLines_map_trim]

/-! ### Writing -/

/-- The pair can stand in a deck list for the library. -/
structure Listable (l : Library) (n : Nat) (name : String) : Prop where
  count : n < Width.end64
  has : l.Has name
  ne : name ≠ ""
  firm : Firm name.toList

/-- Orders, written one to a line with the count in decimal digits. Any line may be indented and may
have white space behind it, and remarks may stand between the orders. -/
inductive Written : List (Nat × String) → List (List Char) → Prop where
  | none : Written [] []
  | remark {front rest : List Char} {entries : List (Nat × String)} {lines : List (List Char)} :
    Blank front → Remark rest → Written entries lines → Written entries ((front ++ rest) :: lines)
  | order {front back : List Char} {n : Nat} {name : String} {entries : List (Nat × String)}
    {lines : List (List Char)} : Blank front → Blank back → Written entries lines →
    Written ((n, name) :: entries)
      ((front ++ ((toString n).toList ++ ' ' :: (name.toList ++ back))) :: lines)

theorem Remark.trim {rest : List Char} (h : Remark rest) : Remark (trim rest) := by
  unfold Text.trim
  cases h with
  | nothing => exact .nothing
  | hash rest =>
    rw [trimLeft_cons (by decide), trimRight_cons (by decide)]
    exact .hash _
  | slashes rest =>
    rw [trimLeft_cons (by decide), trimRight_cons (by decide), trimRight_cons (by decide)]
    exact .slashes _

theorem counts_toString (h : n < Width.end64) : Counts (toString n).toList n := by
  refine ⟨.bare ?_, h⟩
  simpa using numeral_digits n

theorem Listable.holds {front back : List Char} (h : l.Listable n name) (hfront : Blank front)
    (hback : Blank back) :
    Holds (front ++ ((toString n).toList ++ ' ' :: (name.toList ++ back)))
      ((toString n).toList ++ ' ' :: ([] ++ name.toList)) := by
  have hcount := (counts_toString h.count).1
  have hname : name.toList ≠ [] := fun hnil => h.ne (String.toList_eq_nil_iff.1 hnil)
  have hfirm := (Signed.unsigned hcount).firm.append h.firm hcount.ne_nil hname [' ']
  simpa using Holds.padded hfront hfirm hback

theorem Written.listing (h : Written entries lines) (hentries : ∀ e ∈ entries, l.Listable e.1 e.2) :
    l.Listing lines entries := by
  induction h with
  | none => exact .none
  | remark hfront hrest _ ih =>
    refine .remark (holds_trim _) ?_ (ih hentries)
    rw [trim_blank_append hfront]
    exact hrest.trim
  | order hfront hback _ ih =>
    obtain ⟨hentry, hentries⟩ := List.forall_mem_cons.1 hentries
    exact .order (hentry.holds hfront hback)
      (.entry (counts_toString hentry.count) blank_nil hentry.firm hentry.has) (ih hentries)

/-- Deck lists are read back. Whatever the lines of a text are taken to be, if orders for the cards
of the library are written as these lines then the text is read as these orders; it is read as names
only if its lines are orders and remarks, and as the names in the order of the lines. A refused text
has a first line that is neither an order nor a remark, and the error is the one of that line, with
its number among all lines. -/
theorem deckList_exact (l : Library) (text : String) :
    (∃ lines, Lines lines text.toList) ∧
    ∀ lines, Lines lines text.toList →
      (∀ entries, (∀ e ∈ entries, l.Listable e.1 e.2) → Written entries lines →
        l.parseDeckList text = .ok (expand entries)) ∧
      (∀ names, l.parseDeckList text = .ok names ↔
        ∃ entries, l.Listing lines entries ∧ names = expand entries) ∧
      ∀ e, l.parseDeckList text = .error e ↔
        ∃ before line after, lines = before ++ line :: after ∧ (∀ x ∈ before, l.Sound x) ∧
          l.Flawed (before.length + 1) line e := by
  refine ⟨⟨_, lines_spec _⟩, fun lines hlines => ?_⟩
  rw [parseDeckList_eq hlines]
  refine ⟨fun entries hentries hwritten => (hwritten.listing hentries).parseLines 1,
    fun names => parseLines_eq_ok_iff, fun e => ?_⟩
  simp only [parseLines_eq_error_iff, Nat.add_comm]

/-- Cards with names that could be taken for counts and remarks. -/
def tricky : Library where
  entries := ["3 // #2 Bot", "#", "//"].map fun name =>
    { name := name, type := .event, cost := 0, stats := none, text := "", sentences := [],
      origin := .builtin }

/-- Remarks, both line ends and the limits of the counts. -/
def trickyText : String :=
  "# deck\r\n\t2 3 // #2 Bot \r\n\n// 1 #\n18446744073709551615 #\r\n  0 //"

def trickyLines : List (List Char) :=
  ["# deck".toList, "\t2 3 // #2 Bot ".toList, [], "// 1 #".toList,
    "18446744073709551615 #".toList, "  0 //".toList]

def trickyEntries : List (Nat × String) :=
  [(2, "3 // #2 Bot"), (18446744073709551615, "#"), (0, "//")]

theorem listable_tricky : ∀ e ∈ trickyEntries, tricky.Listable e.1 e.2 := by
  have hhas : ∀ name ∈ ["3 // #2 Bot", "#", "//"], tricky.Has name := fun name hname =>
    ⟨_, List.mem_map_of_mem hname, rfl⟩
  simp only [trickyEntries, List.forall_mem_cons]
  refine ⟨⟨?_, hhas _ (by decide), ?_, firm_of_trim ?_⟩,
    ⟨?_, hhas _ (by decide), ?_, firm_of_trim ?_⟩,
    ⟨?_, hhas _ (by decide), ?_, firm_of_trim ?_⟩, by simp⟩ <;> decide

theorem written_tricky : Written trickyEntries trickyLines := by
  have hlines : trickyLines = [[] ++ '#' :: " deck".toList,
      ['\t'] ++ ((toString 2).toList ++ ' ' :: ("3 // #2 Bot".toList ++ [' '])), [] ++ [],
      [] ++ '/' :: '/' :: " 1 #".toList,
      [] ++ ((toString 18446744073709551615).toList ++ ' ' :: ("#".toList ++ [])),
      [' ', ' '] ++ ((toString 0).toList ++ ' ' :: ("//".toList ++ []))] := by decide
  rw [hlines]
  exact .remark blank_nil (.hash _) <|
    .order (blank_of_all (by decide)) (blank_of_all (by decide)) <|
    .remark blank_nil .nothing <| .remark blank_nil (.slashes _) <|
    .order blank_nil blank_nil <| .order (blank_of_all (by decide)) blank_nil .none

/-- Two more lines are added in the second text: the first of them has no count. -/
theorem deckList_exact_tricky :
    tricky.parseDeckList trickyText = .ok (expand trickyEntries) ∧
    tricky.parseDeckList (trickyText ++ "\nthree #\n4 #") = .error (.lineCount 7 "three") := by
  have hlines : Lines trickyLines trickyText.toList := by
    have h := lines_spec trickyText.toList
    rwa [show Text.lines trickyText.toList = trickyLines by decide] at h
  have hmore : Lines (trickyLines ++ ["three #".toList, "4 #".toList])
      (trickyText ++ "\nthree #\n4 #").toList := by
    have h := lines_spec (trickyText ++ "\nthree #\n4 #").toList
    rwa [show Text.lines (trickyText ++ "\nthree #\n4 #").toList =
      trickyLines ++ ["three #".toList, "4 #".toList] by decide] at h
  -- the counts are too large for the names to be computed: what is read comes from the theorem
  obtain ⟨hread, -, -⟩ := (deckList_exact tricky trickyText).2 _ hlines
  obtain ⟨-, -, herror⟩ := (deckList_exact tricky _).2 _ hmore
  refine ⟨hread _ listable_tricky written_tricky, (herror _).2 ?_⟩
  exact ⟨trickyLines, "three #".toList, ["4 #".toList], rfl,
    (written_tricky.listing listable_tricky).sound, flawed_iff.2 ⟨by decide, rfl⟩⟩

end

end HexDuel.Library
