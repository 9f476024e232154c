import HexDuel.Proofs.Spelling
import HexDuel.Text
import Mathlib.Data.List.DropRight

/-!
What reading makes of plain text: the white space that trimming takes away, the parts between
separators, and the ways in which a number can be written.
-/

set_option autoImplicit false

namespace HexDuel.Text

/-! ### White space -/

section

variable {cs front body back : List Char}

/-- Nothing but white space. -/
def Blank (cs : List Char) : Prop := ∀ c ∈ cs, isWhite c = true

/-- No white space stands at either end. -/
structure Firm (cs : List Char) : Prop where
  head : ∀ c ∈ cs.head?, isWhite c = false
  last : ∀ c ∈ cs.getLast?, isWhite c = false

theorem blank_nil : Blank [] := fun _ h => nomatch h

theorem blank_of_all (h : cs.all isWhite = true) : Blank cs := List.all_eq_true.1 h

theorem Blank.append (hfront : Blank front) (hback : Blank back) : Blank (front ++ back) :=
  fun c hc => (List.mem_append.1 hc).elim (hfront c) (hback c)

theorem firm_of_solid (h : ∀ c ∈ cs, isWhite c = false) : Firm cs :=
  ⟨fun c hc => h c (List.mem_of_mem_head? hc), fun c hc => h c (List.mem_of_mem_getLast? hc)⟩

/-- Whatever stands between two firm texts is inside. -/
theorem Firm.append {xs ys : List Char} (hxs : Firm xs) (hys : Firm ys) (hx : xs ≠ [])
    (hy : ys ≠ []) (between : List Char) : Firm (xs ++ (between ++ ys)) where
  head := by
    rw [List.head?_append_of_ne_nil _ hx]
    exact hxs.head
  last := by
    rw [List.getLast?_append_of_ne_nil _ (by simp [hy]), List.getLast?_append_of_ne_nil _ hy]
    exact hys.last

theorem dropWhile_append (hfront : Blank front) (hbody : ∀ c ∈ body.head?, isWhite c = false) :
    (front ++ body).dropWhile isWhite = body := by
  rw [List.dropWhile_append_of_pos hfront]
  cases body with
  | nil => rfl
  | cons c body => simp [hbody c rfl]

theorem trimRight_append (hback : Blank back) (hbody : ∀ c ∈ body.getLast?, isWhite c = false) :
    trimRight (body ++ back) = body := by
  unfold trimRight
  rw [List.reverse_append, dropWhile_append (fun c hc => hback c (List.mem_reverse.1 hc)),
    List.reverse_reverse]
  rwa [List.head?_reverse]

theorem trim_append (hfront : Blank front) (hbody : Firm body) (hback : Blank back) :
    trim (front ++ (body ++ back)) = body := by
  unfold trim trimLeft
  cases body with
  | nil =>
    have hnone : (front ++ back).dropWhile isWhite = [] :=
      List.dropWhile_eq_nil_iff.2 (hfront.append hback)
    rw [List.nil_append, hnone]
    rfl
  | cons c body =>
    rw [dropWhile_append hfront (by simpa using hbody.head), trimRight_append hback hbody.last]

theorem trim_eq_self (h : Firm cs) : trim cs = cs := by
  simpa using trim_append blank_nil h blank_nil

theorem head?_trimLeft (cs : List Char) : ∀ c ∈ (trimLeft cs).head?, isWhite c = false := by
  intro c hc
  have hhead := List.head?_dropWhile_not isWhite cs
  rw [← trimLeft, Option.mem_def.1 hc] at hhead
  exact hhead

theorem trim_append_rtakeWhile (cs : List Char) :
    trim cs ++ (trimLeft cs).rtakeWhile isWhite = trimLeft cs :=
  List.rdropWhile_append_rtakeWhile ..

theorem firm_trim (cs : List Char) : Firm (trim cs) where
  head c hc := by
    refine head?_trimLeft cs c ?_
    rw [← trim_append_rtakeWhile, List.head?_append_of_ne_nil _ (fun h => by simp [h] at hc)]
    exact hc
  last := by
    rw [trim, trimRight, List.getLast?_reverse]
    exact head?_trimLeft _

/-- Every text is what trimming leaves, with white space around it. -/
theorem exists_trim (cs : List Char) :
    ∃ front back, Blank front ∧ Blank back ∧ cs = front ++ (trim cs ++ back) := by
  refine ⟨cs.takeWhile isWhite, (trimLeft cs).rtakeWhile isWhite,
    fun c hc => List.mem_takeWhile_imp hc, fun c hc => List.mem_rtakeWhile_imp hc, ?_⟩
  rw [trim_append_rtakeWhile]
  exact List.takeWhile_append_dropWhile.symm

theorem firm_of_trim (h : trim cs = cs) : Firm cs := h ▸ firm_trim cs

@[simp] theorem trim_trim (cs : List Char) : trim (trim cs) = trim cs := trim_eq_self (firm_trim cs)

theorem trim_blank_append (hfront : Blank front) (cs : List Char) :
    trim (front ++ cs) = trim cs := by
  unfold trim trimLeft
  rw [List.dropWhile_append_of_pos hfront]

theorem trim_append_blank (cs : List Char) (hback : Blank back) : trim (cs ++ back) = trim cs := by
  obtain ⟨front, tail, hfront, htail, hcs⟩ := exists_trim cs
  have heq : cs ++ back = front ++ (trim cs ++ (tail ++ back)) := by
    conv_lhs => rw [hcs]
    simp only [List.append_assoc]
  rw [heq, trim_append hfront (firm_trim cs) (htail.append hback)]

theorem trimLeft_cons {c : Char} (hc : isWhite c = false) (cs : List Char) :
    trimLeft (c :: cs) = c :: cs := List.dropWhile_cons_of_neg (by simp [hc])

theorem trimRight_cons {c : Char} (hc : isWhite c = false) (cs : List Char) :
    trimRight (c :: cs) = c :: trimRight cs := by
  unfold trimRight
  rw [List.reverse_cons, List.dropWhile_append]
  split
  · rename_i hnone
    simp [hc, List.isEmpty_iff.1 hnone]
  · simp

/-- A text that is firm as a whole does not end with white space. -/
theorem Firm.eq_nil_of_blank (h : Firm (front ++ back)) (hback : Blank back) : back = [] := by
  by_contra hne
  have hback? := List.getLast?_eq_some_getLast hne
  have hlast := h.last (back.getLast hne) (by simp [List.getLast?_append, hback?])
  rw [hback _ (List.getLast_mem hne)] at hlast
  cases hlast

end

/-! ### Parts -/

section

variable {separator : Char} {cs : List Char}

theorem fields_of_not_mem (h : separator ∉ cs) : fields separator cs = [cs] := by
  induction cs with
  | nil => rfl
  | cons c cs ih =>
    obtain ⟨hc, hcs⟩ := not_or.1 (mt List.mem_cons.2 h)
    rw [fields, ih hcs]
    exact if_neg (Ne.symm hc)

theorem fields_append (h : separator ∉ cs) (rest : List Char) :
    fields separator (cs ++ separator :: rest) = cs :: fields separator rest := by
  induction cs with
  | nil =>
    rw [List.nil_append, fields]
    cases hrest : fields separator rest with
    | nil => exact absurd hrest (fields_ne_nil separator rest)
    | cons f fs => exact if_pos rfl
  | cons c cs ih =>
    obtain ⟨hc, hcs⟩ := not_or.1 (mt List.mem_cons.2 h)
    rw [List.cons_append, fields, ih hcs]
    exact if_neg (Ne.symm hc)

/-- A text is one part, or a part, a separator and what holds the other parts. -/
theorem exists_fields (separator : Char) (cs : List Char) :
    (separator ∉ cs ∧ fields separator cs = [cs]) ∨
    ∃ part rest, separator ∉ part ∧ cs = part ++ separator :: rest ∧
      fields separator cs = part :: fields separator rest := by
  by_cases h : separator ∈ cs
  · obtain ⟨part, rest, rfl, hpart⟩ := List.eq_append_cons_of_mem h
    exact .inr ⟨part, rest, hpart, rfl, fields_append hpart rest⟩
  · exact .inl ⟨h, fields_of_not_mem h⟩

theorem fields_eq_singleton {part : List Char} (h : fields separator cs = [part]) :
    cs = part ∧ separator ∉ part := by
  obtain ⟨hcs, hone⟩ | ⟨first, rest, -, -, hmore⟩ := exists_fields separator cs
  · obtain rfl := List.head_eq_of_cons_eq (hone.symm.trans h)
    exact ⟨rfl, hcs⟩
  · exact absurd (List.tail_eq_of_cons_eq (hmore.symm.trans h)) (fields_ne_nil separator rest)

theorem fields_eq_cons_cons {part next : List Char} {parts : List (List Char)}
    (h : fields separator cs = part :: next :: parts) :
    ∃ rest, cs = part ++ separator :: rest ∧ separator ∉ part ∧
      fields separator rest = next :: parts := by
  obtain ⟨-, hone⟩ | ⟨first, rest, hfirst, rfl, hmore⟩ := exists_fields separator cs
  · exact absurd (hone.symm.trans h) (by simp)
  · obtain ⟨rfl, hrest⟩ := List.cons.inj (hmore.symm.trans h)
    exact ⟨rest, rfl, hfirst, hrest⟩

/-- Where a text is cut there is the first separator. -/
theorem cut?_append (h : separator ∉ cs) (rest : List Char) :
    cut? separator (cs ++ separator :: rest) = some (cs, rest) := by
  induction cs with
  | nil => simp [cut?]
  | cons c cs ih =>
    obtain ⟨hc, hcs⟩ := not_or.1 (mt List.mem_cons.2 h)
    rw [List.cons_append, cut?, if_neg (Ne.symm hc), ih hcs]
    rfl

theorem cut?_of_not_mem (h : separator ∉ cs) : cut? separator cs = none := by
  induction cs with
  | nil => rfl
  | cons c cs ih =>
    obtain ⟨hc, hcs⟩ := not_or.1 (mt List.mem_cons.2 h)
    rw [cut?, if_neg (Ne.symm hc), ih hcs]
    rfl

end

/-! ### Lines -/

section

variable {line text : List Char} {ls : List (List Char)}

/-- The lines of a text. Each one ends with a line feed or with a carriage return and a line feed,
the last one also with the text. -/
inductive Lines : List (List Char) → List Char → Prop where
  | none : Lines [] []
  | last {line : List Char} : line ≠ [] → '\n' ∉ line → Lines [line] line
  | feed {line text : List Char} {ls : List (List Char)} : '\n' ∉ line → Lines ls text →
    Lines (line :: ls) (line ++ '\n' :: text)
  | returnFeed {line text : List Char} {ls : List (List Char)} : '\n' ∉ line → Lines ls text →
    Lines (line :: ls) (line ++ '\r' :: '\n' :: text)

theorem lines_append (h : '\n' ∉ line) (text : List Char) :
    lines (line ++ '\n' :: text) = dropReturn line :: lines text := by
  unfold lines
  rw [fields_append h]
  cases hfields : fields '\n' text with
  | nil => exact absurd hfields (fields_ne_nil '\n' text)
  | cons part parts =>
    simp only [List.dropLast_cons_cons, List.map_cons, List.getLast?_cons_cons]
    split <;> rfl

theorem lines_of_not_mem (hne : line ≠ []) (h : '\n' ∉ line) : lines line = [line] := by
  unfold lines
  rw [fields_of_not_mem h]
  cases line with
  | nil => exact absurd rfl hne
  | cons c line => rfl

/-- At most a carriage return is left out. -/
theorem exists_dropReturn (line : List Char) :
    dropReturn line = line ∨ line = dropReturn line ++ ['\r'] := by
  unfold dropReturn
  split
  · rename_i hlast
    exact .inr (List.dropLast_append_getLast? _ hlast).symm
  · exact .inl rfl

theorem blank_return : Blank ['\r'] := blank_of_all (by decide)

theorem trim_dropReturn (line : List Char) : trim (dropReturn line) = trim line := by
  obtain h | h := exists_dropReturn line
  · rw [h]
  · conv_rhs => rw [h, trim_append_blank _ blank_return]

/-- Every text has lines, the ones that are read. -/
theorem lines_spec (text : List Char) : Lines (lines text) text := by
  induction hlength : text.length using Nat.strong_induction_on generalizing text with
  | _ length ih =>
    obtain ⟨hmem, -⟩ | ⟨line, rest, hmem, rfl, -⟩ := exists_fields '\n' text
    · by_cases hne : text = []
      · subst hne
        exact .none
      · rw [lines_of_not_mem hne hmem]
        exact .last hne hmem
    · have hrest := ih rest.length (by simp at hlength; omega) rest rfl
      rw [lines_append hmem]
      obtain hline | hline := exists_dropReturn line
      · rw [hline]
        exact .feed hmem hrest
      · have hshort : '\n' ∉ dropReturn line := by
          rw [hline] at hmem
          exact fun h => hmem (List.mem_append_left _ h)
        have hreturn := Lines.returnFeed hshort hrest
        conv_rhs => rw [hline]
        simpa using hreturn

/-- The carriage return before a line feed may also be taken for a part of the line: it is lost when
the line is trimmed. -/
theorem Lines.map_trim (h : Lines ls text) : (lines text).map trim = ls.map trim := by
  induction h with
  | none => rfl
  | last hne hmem => rw [lines_of_not_mem hne hmem]
  | feed hmem _ ih => rw [lines_append hmem, List.map_cons, List.map_cons, trim_dropReturn, ih]
  | @returnFeed line text ls hmem _ ih =>
    have hreturn : '\n' ∉ line ++ ['\r'] := by simpa using hmem
    have heq := lines_append hreturn text
    rw [List.append_assoc] at heq
    rw [show line ++ '\r' :: '\n' :: text = line ++ (['\r'] ++ '\n' :: text) from rfl, heq,
      List.map_cons, List.map_cons, trim_dropReturn, trim_append_blank _ blank_return, ih]

end

/-! ### Numbers -/

section

variable {cs ds : List Char} {n : Nat} {i : Int}

/-- Decimal digits, and the number that they stand for. -/
inductive Numeral : List Char → Nat → Prop where
  | one {d : Nat} : d < 10 → Numeral [Nat.digitChar d] d
  | snoc {ds : List Char} {n d : Nat} : Numeral ds n → d < 10 →
    Numeral (ds ++ [Nat.digitChar d]) (10 * n + d)

/-- A number without a sign, or with a plus sign. -/
inductive Unsigned : List Char → Nat → Prop where
  | bare {ds : List Char} {n : Nat} : Numeral ds n → Unsigned ds n
  | plus {ds : List Char} {n : Nat} : Numeral ds n → Unsigned ('+' :: ds) n

/-- A number with or without a sign. -/
inductive Signed : List Char → Int → Prop where
  | unsigned {cs : List Char} {n : Nat} : Unsigned cs n → Signed cs n
  | minus {ds : List Char} {n : Nat} : Numeral ds n → Signed ('-' :: ds) (-n)

theorem Numeral.ne_nil (h : Numeral ds n) : ds ≠ [] := by cases h <;> simp

theorem Numeral.isDigit (h : Numeral ds n) : ∀ c ∈ ds, c.isDigit = true := by
  induction h with
  | one hd => simp [Nat.isDigit_digitChar, hd]
  | snoc _ hd ih =>
    intro c hc
    obtain hc | hc := List.mem_append.1 hc
    · exact ih c hc
    · obtain rfl := List.mem_singleton.1 hc
      simp [Nat.isDigit_digitChar, hd]

theorem exists_digitChar {c : Char} (h : c.isDigit = true) : ∃ d, d < 10 ∧ c = Nat.digitChar d := by
  have hrange : 48 ≤ c.toNat ∧ c.toNat ≤ 57 := Char.isDigit_iff_toNat.1 h
  refine ⟨c.toNat - 48, by omega, Char.toNat_inj.1 ?_⟩
  rw [Nat.toNat_digitChar_of_lt_ten (by omega)]
  omega

theorem value_digitChar {d : Nat} (h : d < 10) : (Nat.digitChar d).toNat - '0'.toNat = d := by
  rw [Nat.toNat_digitChar_of_lt_ten h]
  exact Nat.add_sub_cancel_left 48 d

theorem ofDigitChars_snoc (ds : List Char) {d : Nat} (h : d < 10) :
    Nat.ofDigitChars 10 (ds ++ [Nat.digitChar d]) 0 = 10 * Nat.ofDigitChars 10 ds 0 + d := by
  rw [Nat.ofDigitChars_append, Nat.ofDigitChars_cons, Nat.ofDigitChars_nil, value_digitChar h]

theorem Numeral.value (h : Numeral ds n) : Nat.ofDigitChars 10 ds 0 = n := by
  induction h with
  | one hd => simpa using ofDigitChars_snoc [] hd
  | snoc _ hd ih => rw [ofDigitChars_snoc _ hd, ih]

theorem numeral_of_digits (hne : ds ≠ []) (h : ∀ c ∈ ds, c.isDigit = true) :
    Numeral ds (Nat.ofDigitChars 10 ds 0) := by
  induction ds using List.reverseRecOn with
  | nil => exact absurd rfl hne
  | append_singleton ds c ih =>
    obtain ⟨d, hd, rfl⟩ := exists_digitChar (h c (by simp))
    rw [ofDigitChars_snoc ds hd]
    by_cases hds : ds = []
    · subst hds
      simpa using Numeral.one hd
    · exact .snoc (ih hds fun c hc => h c (List.mem_append_left _ hc)) hd

theorem digits?_eq_some_iff : digits? cs = some n ↔ Numeral cs n := by
  unfold digits?
  constructor
  · intro h
    split at h
    · cases h
    · rename_i hdigits
      obtain rfl := Option.some.inj h
      simp only [Bool.or_eq_true, Bool.not_eq_true', not_or, Bool.not_eq_false,
        List.isEmpty_iff, List.all_eq_true] at hdigits
      exact numeral_of_digits hdigits.1 hdigits.2
  · intro h
    have hempty : cs.isEmpty = false := List.isEmpty_eq_false_iff.2 h.ne_nil
    have hall : cs.all Char.isDigit = true := List.all_eq_true.2 h.isDigit
    simp [hempty, hall, h.value]

theorem Numeral.head_ne (h : Numeral ds n) {c : Char} (hc : c.isDigit = false) (cs : List Char) :
    ds ≠ c :: cs := by
  rintro rfl
  rw [h.isDigit c List.mem_cons_self] at hc
  cases hc

theorem nat?_eq_some_iff : nat? cs = some n ↔ Unsigned cs n := by
  constructor
  · intro h
    unfold nat? at h
    split at h
    · exact .plus (digits?_eq_some_iff.1 h)
    · exact .bare (digits?_eq_some_iff.1 h)
  · intro h
    cases h with
    | bare h =>
      rw [nat?]
      · exact digits?_eq_some_iff.2 h
      · exact h.head_ne (by decide)
    | plus h => exact digits?_eq_some_iff.2 h

theorem Unsigned.head_ne_minus (h : Unsigned cs n) (ds : List Char) : cs ≠ '-' :: ds := by
  cases h with
  | bare h => exact h.head_ne (by decide) ds
  | plus h => simp

theorem int?_eq_some_iff : int? cs = some i ↔ Signed cs i := by
  constructor
  · intro h
    unfold int? at h
    split at h
    · rename_i ds
      cases hn : digits? ds with
      | none => rw [hn] at h; cases h
      | some n =>
        rw [hn] at h
        obtain rfl := Option.some.inj h
        exact .minus (digits?_eq_some_iff.1 hn)
    · cases hn : nat? cs with
      | none => rw [hn] at h; cases h
      | some n =>
        rw [hn] at h
        obtain rfl := Option.some.inj h
        exact .unsigned (nat?_eq_some_iff.1 hn)
  · intro h
    cases h with
    | unsigned h =>
      rw [int?, nat?_eq_some_iff.2 h]
      · rfl
      · exact h.head_ne_minus
    | minus h => rw [int?, digits?_eq_some_iff.2 h]; rfl

theorem Signed.mem (h : Signed cs i) : ∀ c ∈ cs, c = '+' ∨ c = '-' ∨ c.isDigit = true := by
  cases h with
  | unsigned h =>
    cases h with
    | bare h => exact fun c hc => .inr (.inr (h.isDigit c hc))
    | plus h =>
      exact List.forall_mem_cons.2 ⟨.inl rfl, fun c hc => .inr (.inr (h.isDigit c hc))⟩
  | minus h =>
    exact List.forall_mem_cons.2 ⟨.inr (.inl rfl), fun c hc => .inr (.inr (h.isDigit c hc))⟩

theorem isWhite_of_isDigit {c : Char} (h : c.isDigit = true) : isWhite c = false := by
  have hdigit : 48 ≤ c.toNat ∧ c.toNat ≤ 57 := Char.isDigit_iff_toNat.1 h
  simp only [isWhite, Bool.or_eq_false_iff, Bool.and_eq_false_imp, decide_eq_true_eq,
    decide_eq_false_iff_not, beq_eq_false_iff_ne]
  omega

theorem Signed.firm (h : Signed cs i) : Firm cs := by
  refine firm_of_solid fun c hc => ?_
  obtain rfl | rfl | hdigit := h.mem c hc
  · decide
  · decide
  · exact isWhite_of_isDigit hdigit

theorem Unsigned.ne_nil (h : Unsigned cs n) : cs ≠ [] := by
  cases h with
  | bare h => exact h.ne_nil
  | plus h => simp

theorem numeral_digits (n : Nat) : Numeral (Nat.toDigits 10 n) n := by
  have h := numeral_of_digits (Nat.toDigits_ne_nil (b := 10) (n := n)) fun _ =>
    Json.isDigit_of_mem_digits
  rwa [Nat.ofDigitChars_ten_toDigits] at h

theorem digits?_digits (n : Nat) : digits? (Nat.toDigits 10 n) = some n :=
  digits?_eq_some_iff.2 (numeral_digits n)

theorem signed_writeInt (i : Int) : Signed (Json.writeInt i []) i := by
  unfold Json.writeInt
  simp only [List.append_nil]
  split
  · have hminus := Signed.minus (numeral_digits i.natAbs)
    rwa [show -(i.natAbs : Int) = i by omega] at hminus
  · have hbare := Signed.unsigned (.bare (numeral_digits i.natAbs))
    rwa [show (i.natAbs : Int) = i by omega] at hbare

end

end HexDuel.Text
