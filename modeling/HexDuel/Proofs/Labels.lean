import HexDuel.Proofs.Codes
import HexDuel.Proofs.Literals

/-!
Cells and ids as texts. A cell is read back from its text when its coordinates fit, and every cell
that is read fits; an id is read back from the name of the member that it stands for.
-/

set_option autoImplicit false

namespace HexDuel

/-! ### Cells -/

namespace Hex

theorem toList_toString_int (i : Int) : (toString i).toList = Json.writeInt i [] := by
  unfold Json.writeInt
  rw [Int.toString_eq_repr, Int.repr_eq_if]
  by_cases h : i < 0
  · rw [if_neg (by omega), if_pos h, String.toList_append, Nat.toList_repr, List.append_nil]
    have habs : (-i).toNat = i.natAbs := by omega
    rw [habs]
    rfl
  · rw [if_pos (by omega), if_neg h, Nat.toList_repr, List.append_nil]
    have habs : i.toNat = i.natAbs := by omega
    rw [habs]

theorem comma_not_mem_writeInt (i : Int) : ',' ∉ Json.writeInt i [] := by
  intro h
  obtain h | h | h := (Text.signed_writeInt i).mem _ h <;> revert h <;> decide

theorem coordinate?_writeInt {i : Int} (h : Fits32 i) :
    coordinate? (Json.writeInt i []) = some i := by
  unfold coordinate?
  rw [Text.trim_eq_self (Text.signed_writeInt i).firm,
    Text.int?_eq_some_iff.2 (Text.signed_writeInt i)]
  simp [Option.filter, inWord_iff.2 h]

theorem toList_toText (h : Hex) : h.toText.toList =
    Json.writeInt h.q [] ++ ',' :: (Json.writeInt h.r [] ++ ',' :: Json.writeInt h.s []) := by
  have htext : h.toText = toString h.q ++ "," ++ toString h.r ++ "," ++ toString h.s := rfl
  simp only [htext, String.toList_append, toList_toString_int, List.append_assoc]
  rfl

theorem ofText_toText {h : Hex} (hfits : h.Fits) : ofText h.toText = some h := by
  obtain ⟨hq, hr, hs, hsum, hlevel⟩ := hfits
  have hword := inWord_iff.2 hsum
  unfold ofText
  rw [toList_toText, Text.fields_append (comma_not_mem_writeInt _),
    Text.fields_append (comma_not_mem_writeInt _),
    Text.fields_of_not_mem (comma_not_mem_writeInt _)]
  simp [coordinate?_writeInt hq, coordinate?_writeInt hr, coordinate?_writeInt hs, hword, hlevel]

theorem fits_of_coordinate? {cs : List Char} {i : Int} (h : coordinate? cs = some i) : Fits32 i :=
  inWord_iff.1 (Option.filter_eq_some_iff.1 h).2

/-- Every cell that has been read from a text fits. -/
theorem fits_of_ofText {text : String} {h : Hex} (hread : ofText text = some h) : h.Fits := by
  unfold ofText at hread
  split at hread
  · rename_i q r s hfields
    split at hread
    · rename_i hsum
      obtain rfl := Option.some.inj hread
      simp only [Bool.and_eq_true, beq_iff_eq] at hsum
      have hread := Json.forall_of_mapM (fun _ _ => fits_of_coordinate?) hfields
      simp only [List.forall_mem_cons] at hread
      exact ⟨hread.1, hread.2.1, hread.2.2.1, inWord_iff.1 hsum.1, hsum.2⟩
    · cases hread
  · cases hread

/-- The cells that fit are those that are read from texts. -/
theorem fits_iff {h : Hex} : h.Fits ↔ ∃ text, ofText text = some h :=
  ⟨fun hfits => ⟨h.toText, ofText_toText hfits⟩, fun ⟨_, hread⟩ => fits_of_ofText hread⟩

theorem codes {h : Hex} (hfits : h.Fits) : Json.Codes decode h.encode h :=
  ⟨trivial, ofText_toText hfits⟩

end Hex

/-! ### Ids -/

theorem Board.idOfName_toString {id : PieceId} (h : FitsId id) :
    idOfName (toString id) = some id := by
  have hlead : (decide (1 < (Nat.toDigits 10 id).length) &&
      (Nat.toDigits 10 id).head? == some '0') = false := by
    obtain rfl | hpos := Nat.eq_zero_or_pos id
    · decide
    · simp [Json.head?_digits hpos]
  unfold idOfName
  unfold FitsId at h
  simp [hlead, Text.digits?_digits, Option.filter, h]

end HexDuel
