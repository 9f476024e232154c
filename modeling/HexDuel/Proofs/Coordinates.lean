import HexDuel.Proofs.Labels

/-!
Which texts name a cell. The grammar of these texts is given apart from the reader, which accepts
them and no others, and what it has read it reads again from the text that is written for it.
-/

set_option autoImplicit false

namespace HexDuel.Hex

open Text

/-- A number of 32 bits, with white space around it. -/
inductive Coordinate : List Char → Int → Prop where
  | padded {front body back : List Char} {i : Int} : Blank front → Signed body i → Blank back →
    Fits32 i → Coordinate (front ++ (body ++ back)) i

/-- The numbers can be added to the first one after the other, and no sum on the way leaves 32
bits. -/
inductive Adds : Int → List Int → Int → Prop where
  | done {i : Int} : Adds i [] i
  | next {i j total : Int} {js : List Int} : Fits32 (i + j) → Adds (i + j) js total →
    Adds i (j :: js) total

/-- Three coordinates between commas, of which the sum is zero. -/
inductive Spelled : List Char → Hex → Prop where
  | cell {q r s : List Char} {h : Hex} : Coordinate q h.q → Coordinate r h.r → Coordinate s h.s →
    Adds h.q [h.r, h.s] 0 → Spelled (q ++ ',' :: (r ++ ',' :: s)) h

theorem coordinate?_eq_some_iff {cs : List Char} {i : Int} :
    coordinate? cs = some i ↔ Coordinate cs i := by
  constructor
  · intro h
    have hfits := fits_of_coordinate? h
    obtain ⟨front, back, hfront, hback, hcs⟩ := exists_trim cs
    have hsigned : Signed (trim cs) i := int?_eq_some_iff.1 (Option.filter_eq_some_iff.1 h).1
    rw [hcs]
    exact .padded hfront hsigned hback hfits
  · rintro ⟨hfront, hsigned, hback, hfits⟩
    unfold coordinate?
    rw [trim_append hfront hsigned.firm hback, int?_eq_some_iff.2 hsigned]
    exact Option.filter_eq_some_iff.2 ⟨rfl, inWord_iff.2 hfits⟩

theorem comma_not_mem_of_blank {cs : List Char} (h : Blank cs) : ',' ∉ cs := by
  intro hcomma
  have hwhite := h _ hcomma
  revert hwhite
  decide

/-- So a text of coordinates is cut at the commas between them only. -/
theorem Coordinate.comma_not_mem {cs : List Char} {i : Int} (h : Coordinate cs i) : ',' ∉ cs := by
  obtain ⟨hfront, hsigned, hback, -⟩ := h
  simp only [List.mem_append, not_or]
  refine ⟨comma_not_mem_of_blank hfront, fun hcomma => ?_, comma_not_mem_of_blank hback⟩
  obtain h | h | h := hsigned.mem _ hcomma <;> revert h <;> decide

theorem adds_zero_iff {q r s : Int} : Adds q [r, s] 0 ↔ Fits32 (q + r) ∧ q + r + s = 0 := by
  constructor
  · intro h
    cases h with
    | next hfits h =>
      cases h with
      | next _ h =>
        generalize q + r + s = total at h ⊢
        cases h
        exact ⟨hfits, rfl⟩
  · rintro ⟨hfits, hsum⟩
    refine .next hfits (.next ?_ ?_) <;> rw [hsum]
    · exact ⟨by decide, by decide⟩
    · exact .done

theorem forall₂_of_mapM {α β : Type} {f : α → Option β} {xs : List α} {ys : List β}
    (h : xs.mapM f = some ys) : List.Forall₂ (fun x y => f x = some y) xs ys := by
  induction xs generalizing ys with
  | nil =>
    cases h
    exact .nil
  | cons x xs ih =>
    simp only [List.mapM_cons, Option.bind_eq_bind, Option.bind_eq_some_iff] at h
    obtain ⟨y, hy, rest, hrest, hys⟩ := h
    cases hys
    exact .cons hy (ih hrest)

theorem spelled_of_ofText {text : String} {h : Hex} (hread : ofText text = some h) :
    Spelled text.toList h := by
  have hlevel := (fits_of_ofText hread).level
  have hsum := (fits_of_ofText hread).sum
  unfold ofText at hread
  split at hread
  · rename_i q r s hparts
    split at hread
    · obtain rfl := Option.some.inj hread
      generalize hfields : fields ',' text.toList = parts at hparts
      obtain _ | ⟨hq, _ | ⟨hr, _ | ⟨hs, _ | _⟩⟩⟩ := forall₂_of_mapM hparts
      obtain ⟨rest, htext, -, hrest⟩ := fields_eq_cons_cons hfields
      obtain ⟨last, rfl, -, hlast⟩ := fields_eq_cons_cons hrest
      obtain ⟨rfl, -⟩ := fields_eq_singleton hlast
      rw [htext]
      exact .cell (coordinate?_eq_some_iff.1 hq) (coordinate?_eq_some_iff.1 hr)
        (coordinate?_eq_some_iff.1 hs) (adds_zero_iff.2 ⟨hsum, hlevel⟩)
    · cases hread
  · cases hread

theorem ofText_of_spelled {text : String} {h : Hex} (hspelled : Spelled text.toList h) :
    ofText text = some h := by
  generalize htext : text.toList = cs at hspelled
  obtain ⟨hq, hr, hs, hsum⟩ := hspelled
  obtain ⟨hfits, hlevel⟩ := adds_zero_iff.1 hsum
  have hword := inWord_iff.2 hfits
  unfold ofText
  rw [htext, fields_append hq.comma_not_mem, fields_append hr.comma_not_mem,
    fields_of_not_mem hs.comma_not_mem]
  simp [coordinate?_eq_some_iff.2 hq, coordinate?_eq_some_iff.2 hr, coordinate?_eq_some_iff.2 hs,
    hword, hlevel]

theorem ofText_eq_some_iff {text : String} {h : Hex} :
    ofText text = some h ↔ Spelled text.toList h := ⟨spelled_of_ofText, ofText_of_spelled⟩

/-- Reading and writing of cells agree. A text is read as a cell exactly if it spells it, with three
numbers of 32 bits between commas that add up to zero and leave 32 bits on the way in no sum; every
other text is refused. What has been read is read again from the text that is written for it, so
that writing what was read from a written text leaves that text as it is. -/
theorem text_consistent (text : String) :
    (∀ h, ofText text = some h ↔ Spelled text.toList h) ∧
    (ofText text = none ↔ ∀ h, ¬ Spelled text.toList h) ∧
    (∀ h, ofText text = some h → h.q + h.r + h.s = 0 ∧ ofText h.toText = some h) ∧
    ∀ normal, (ofText text).map toText = some normal →
      (ofText normal).map toText = some normal := by
  refine ⟨fun h => ofText_eq_some_iff, ?_, fun h hread => ?_, fun normal hnormal => ?_⟩
  · simp only [← ofText_eq_some_iff, Option.eq_none_iff_forall_ne_some, ne_eq]
  · have hfits := fits_of_ofText hread
    exact ⟨hfits.level, ofText_toText hfits⟩
  · obtain ⟨h, hread, rfl⟩ := Option.map_eq_some_iff.1 hnormal
    rw [ofText_toText (fits_of_ofText hread)]
    rfl

/-- The sum of the first two coordinates has more than 32 bits, although that of all three is
zero. -/
example : ofText "2147483647,1,-2147483648" = none := by decide

/-- Signs, leading zeros and white space are read, and are not written. -/
theorem text_consistent_padded :
    ofText "\t+007,-3 , -004\n" = some ⟨7, -3, -4⟩ ∧
    Spelled "\t+007,-3 , -004\n".toList ⟨7, -3, -4⟩ ∧
    ofText "7,-3,-4" = some ⟨7, -3, -4⟩ ∧ (ofText "7,-3,-4").map toText = some "7,-3,-4" := by
  obtain ⟨hspelled, -, hback, hnormal⟩ := text_consistent "\t+007,-3 , -004\n"
  have hread : ofText "\t+007,-3 , -004\n" = some ⟨7, -3, -4⟩ := by decide
  exact ⟨hread, (hspelled _).1 hread, (hback _ hread).2, hnormal _ (congrArg (·.map toText) hread)⟩

end HexDuel.Hex
