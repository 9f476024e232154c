import HexDuel.Proofs.Fits
import HexDuel.Proofs.Spelling

/-!
Data that is written and read back: numbers, texts, lists and records, and the phrases that select.
-/

set_option autoImplicit false

namespace HexDuel.Json

/-- The value stands for `a`: it can be printed, and it is decoded as `a`. -/
structure Codes {α : Type} (decode : Json → Option α) (v : Json) (a : α) : Prop where
  plain : v.Plain
  decode : decode v = some a

/-! ### Plain data -/

theorem plain_int {i : Int} (hleast : Width.least64 ≤ i) (hmost : i < Width.end64) :
    (Json.int i).Plain := ⟨hleast, hmost⟩

theorem codes_int32 {i : Int} (h : Fits32 i) : Codes int32? (.int i) i := by
  refine ⟨?_, within_int h.1 h.2⟩
  unfold Fits32 at h
  simp only [Width.least32, Width.most32] at h
  exact plain_int (by simp only [Width.least64]; omega) (by simp only [Width.end64]; omega)

theorem codes_int64 {i : Int} (h : Width.least64 ≤ i ∧ i ≤ Width.most64) :
    Codes int64? (.int i) i := by
  refine ⟨plain_int h.1 ?_, within_int h.1 h.2⟩
  simp only [Width.most64] at h
  simp only [Width.end64]
  omega

theorem codes_nat64 {n : Nat} (h : n < Width.end64) : Codes nat64? (.ofNat n) n := by
  refine ⟨?_, nat64?_ofNat h⟩
  simp only [Width.end64] at h
  exact plain_int (by simp only [Width.least64]; omega) (by simp only [Width.end64]; omega)

theorem codes_nat32 {n : Nat} (h : n < Width.end32) : Codes nat32? (.ofNat n) n := by
  refine ⟨?_, natBelow?_int h⟩
  simp only [Width.end32] at h
  exact plain_int (by simp only [Width.least64]; omega) (by simp only [Width.end64]; omega)

theorem codes_bool (b : Bool) : Codes bool? (.bool b) b := ⟨trivial, rfl⟩

theorem codes_text (s : String) : Codes text? (.str s) s := ⟨trivial, rfl⟩

variable {α : Type} {decode : Json → Option α} {encode : α → Json}

theorem codes_option {o : Option α} (hnull : decode .null = none)
    (h : ∀ a ∈ o, Codes decode (encode a) a) :
    Codes (option? decode) (ofOption encode o) o := by
  cases o with
  | none => exact ⟨trivial, rfl⟩
  | some a =>
    obtain ⟨hplain, hdecode⟩ := h a rfl
    refine ⟨hplain, ?_⟩
    have hne : encode a ≠ .null := by
      intro heq
      rw [heq, hnull] at hdecode
      cases hdecode
    simp only [ofOption]
    unfold option?
    split
    · rename_i heq
      exact absurd heq hne
    · rw [hdecode]
      rfl

theorem plainItems_iff {items : List Json} : PlainItems items ↔ ∀ v ∈ items, v.Plain := by
  induction items with
  | nil => simp [PlainItems]
  | cons v vs ih => simp [PlainItems, ih]

theorem mapM_eq_some_of_forall {β : Type} {f : β → Option α} {g : α → β} {xs : List α}
    (h : ∀ a ∈ xs, f (g a) = some a) : (xs.map g).mapM f = some xs := by
  induction xs with
  | nil => rfl
  | cons a as ih =>
    obtain ⟨hfirst, hrest⟩ := List.forall_mem_cons.1 h
    simp [List.mapM_cons, hfirst, ih hrest]

theorem forall_of_mapM {β : Type} {f : α → Option β} {P : β → Prop}
    (h : ∀ a b, f a = some b → P b) {xs : List α} {ys : List β} (hmap : xs.mapM f = some ys) :
    ∀ b ∈ ys, P b := by
  induction xs generalizing ys with
  | nil =>
    cases hmap
    exact fun _ hb => nomatch hb
  | cons a as ih =>
    simp only [List.mapM_cons, Option.bind_eq_bind, Option.bind_eq_some_iff] at hmap
    obtain ⟨b, hb, bs, hbs, hys⟩ := hmap
    cases hys
    exact List.forall_mem_cons.2 ⟨h a b hb, ih hbs⟩

theorem codes_list {xs : List α} (h : ∀ a ∈ xs, Codes decode (encode a) a) :
    Codes (list? decode) (ofList encode xs) xs := by
  refine ⟨plainItems_iff.2 fun v hv => ?_, mapM_eq_some_of_forall fun a ha => (h a ha).decode⟩
  obtain ⟨a, ha, rfl⟩ := List.mem_map.1 hv
  exact (h a ha).plain

theorem Codes.cons {v : Json} {vs : List Json} {a : α} {as : List α} (hfirst : Codes decode v a)
    (hrest : Codes (list? decode) (.arr vs) as) :
    Codes (list? decode) (.arr (v :: vs)) (a :: as) := by
  refine ⟨⟨hfirst.plain, hrest.plain⟩, ?_⟩
  have hvs : vs.mapM decode = some as := hrest.decode
  simp [list?, List.mapM_cons, hfirst.decode, hvs]

/-! ### Reads

A decoder that reads part after part comes to the value once each read comes to its part. -/

section Reads
variable {α β γ δ : Type} {a : α} {b : β} {c : γ} {x : Option α} {y : Option β} {z : Option γ}

theorem reads_next {k : α → Option β} (hx : x = some a) (hrest : k a = some b) :
    (x >>= k) = some b := by
  rw [hx]
  exact hrest

/-- The decoder goes on with what the part stands for. -/
theorem Codes.next {decode : Json → Option α} {v : Json} (h : Codes decode v a) {k : α → Option β}
    (hrest : k a = some b) : (decode v >>= k) = some b := reads_next h.decode hrest

theorem reads_one (f : α → β) (hx : x = some a) : (do return f (← x)) = some (f a) :=
  reads_next hx rfl

theorem reads_two (f : α → β → γ) (hx : x = some a) (hy : y = some b) :
    (do return f (← x) (← y)) = some (f a b) :=
  reads_next hx (reads_one (f a) hy)

theorem reads_three (f : α → β → γ → δ) (hx : x = some a) (hy : y = some b) (hz : z = some c) :
    (do return f (← x) (← y) (← z)) = some (f a b c) :=
  reads_next hx (reads_two (f a) hy hz)

end Reads

/-! ### Records and variants -/

theorem lookup_eq_of_mem {members : List (String × Json)} {m : String × Json}
    (hnodup : (members.map (·.1)).Nodup) (hm : m ∈ members) : members.lookup m.1 = some m.2 := by
  induction members with
  | nil => cases hm
  | cons k ks ih =>
    obtain ⟨hnew, hnodup⟩ := List.nodup_cons.1 hnodup
    obtain rfl | hm := List.mem_cons.1 hm
    · exact List.lookup_cons_self
    · have hne : (m.1 == k.1) = false := by
        rw [beq_eq_false_iff_ne]
        intro heq
        exact hnew (List.mem_map.2 ⟨m, hm, heq⟩)
      rw [List.lookup_cons, hne]
      exact ih hnodup hm

/-- A record that holds every field once, in order. -/
theorem slotsOfMembers_eq {names : List String} {members : List (String × Json)}
    (hnames : members.map (·.1) = names) (hnodup : names.Nodup) :
    slotsOfMembers names members = some (members.map fun m => .given m.2) := by
  subst hnames
  unfold slotsOfMembers
  have honce :
      ((members.map (·.1)).any fun n => decide (1 < members.countP (·.1 == n))) = false := by
    rw [List.any_eq_false]
    intro n _
    have hcount := List.nodup_iff_count.1 hnodup n
    have hsame : members.countP (·.1 == n) = (members.map (·.1)).count n := by
      rw [List.count, List.countP_map]
      rfl
    rw [hsame]
    simpa using hcount
  rw [honce]
  simp only [Bool.false_eq_true, if_false, List.map_map, Option.some.injEq]
  refine List.map_congr_left fun m hm => ?_
  simp [slotOf, lookup_eq_of_mem hnodup hm]

@[simp] theorem record?_obj {names : List String} {members : List (String × Json)}
    (hnames : members.map (·.1) = names) (hnodup : names.Nodup) :
    (Json.obj members).record? names = some (members.map fun m => .given m.2) :=
  slotsOfMembers_eq hnames hnodup

@[simp] theorem fields?_obj {names : List String} {members : List (String × Json)}
    (hnames : members.map (·.1) = names) (hnodup : names.Nodup) :
    (Json.obj members).fields? names = some (members.map fun m => .given m.2) :=
  slotsOfMembers_eq hnames hnodup

/-- The decoder goes on with the fields. -/
theorem reads_record {β : Type} {b : β} {names : List String} {members : List (String × Json)}
    {k : List Slot → Option β} (hnames : members.map (·.1) = names) (hnodup : names.Nodup)
    (hrest : k (members.map fun m => .given m.2) = some b) :
    ((Json.obj members).record? names >>= k) = some b :=
  reads_next (record?_obj hnames hnodup) hrest

@[simp] theorem required_given (v : Json) : (Slot.given v).required decode = decode v := rfl

@[simp] theorem optional_given (v : Json) : (Slot.given v).optional decode = option? decode v := rfl

@[simp] theorem orElse_given (v : Json) (a : α) : (Slot.given v).orElse decode a = decode v := rfl

@[simp] theorem plain_str (s : String) : (Json.str s).Plain := trivial

@[simp] theorem plain_bool (b : Bool) : (Json.bool b).Plain := trivial

@[simp] theorem plain_tagged (name : String) (v : Json) : (tagged name v).Plain ↔ v.Plain := by
  simp [tagged, Plain, PlainMembers]

@[simp] theorem plain_arr (items : List Json) : (Json.arr items).Plain ↔ ∀ v ∈ items, v.Plain :=
  plainItems_iff

@[simp] theorem plain_obj_nil : (Json.obj []).Plain := trivial

@[simp] theorem plain_obj_cons (k : String) (v : Json) (ms : List (String × Json)) :
    (Json.obj ((k, v) :: ms)).Plain ↔ v.Plain ∧ (Json.obj ms).Plain := Iff.rfl

@[simp] theorem height_tagged (name : String) (v : Json) :
    (tagged name v).height = v.height + 1 := by simp [tagged, height, heightMembers]

@[simp] theorem height_arr (items : List Json) :
    (Json.arr items).height = heightItems items + 1 := rfl

@[simp] theorem height_obj (members : List (String × Json)) :
    (Json.obj members).height = heightMembers members + 1 := rfl

@[simp] theorem heightMembers_cons (k : String) (v : Json) (ms : List (String × Json)) :
    heightMembers ((k, v) :: ms) = max v.height (heightMembers ms) := rfl

@[simp] theorem heightMembers_nil : heightMembers [] = 0 := rfl

end HexDuel.Json

namespace HexDuel

theorem Color.codes (c : Color) : Json.Codes decode c.encode c := ⟨trivial, decode_encode c⟩

theorem CardType.codes (t : CardType) : Json.Codes decode t.encode t := ⟨trivial, decode_encode t⟩

theorem Origin.codes (o : Origin) : Json.Codes decode o.encode o := ⟨trivial, decode_encode o⟩

theorem Attribute.codes (a : Attribute) : Json.Codes decode a.encode a := ⟨trivial, decode_encode a⟩

theorem Scope.codes (s : Scope) : Json.Codes decode s.encode s := ⟨trivial, decode_encode s⟩

theorem Format.codes (f : Format) : Json.Codes decode f.encode f := ⟨trivial, decode_encode f⟩

theorem TypeQuery.codes (q : TypeQuery) : Json.Codes decode q.encode q := by
  cases q with
  | any => exact ⟨trivial, by decide⟩
  | only t => exact ⟨by simp [encode, CardType.encode], by simp [encode, decode]⟩
  | oneOf ts =>
    have hts := Json.codes_list fun t (_ : t ∈ ts) => CardType.codes t
    exact ⟨by simp [encode, hts.plain], Json.reads_one _ hts.decode⟩

theorem Stats.codes {s : Stats} (h : s.Fits) : Json.Codes decode s.encode s := by
  have hattack := Json.codes_option rfl fun i hi => Json.codes_int32 (h.attack i hi)
  have hhealth := Json.codes_int32 h.health
  have hspeed := Json.codes_option rfl fun i hi => Json.codes_int32 (h.speed i hi)
  refine ⟨?_, ?_⟩
  · simp [encode, hattack.plain, hhealth.plain, hspeed.plain]
  · simp [encode, decode, hattack.decode, hhealth.decode, hspeed.decode]

end HexDuel
