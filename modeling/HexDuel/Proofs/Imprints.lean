import HexDuel.Proofs.Intact

/-!
What abilities leave on objects: adjustments, statuses, activations, and abilities that they grant.
All of it bears the id of the ability, and a withdrawal clears exactly that.
-/

set_option autoImplicit false

namespace HexDuel

/-! ### Imprints -/

/-- What a passive ability leaves on its targets. -/
inductive Imprint where
  | adjustment
  | status
  | grant
  | activation

namespace Passive

def imprint (a : Passive) : Imprint :=
  match a.effect with
  | .adjust .. => .adjustment
  | .status _ => .status
  | .grant _ => .grant
  | .activated .. => .activation

/-- It has been applied, and that is what it leaves on its targets. -/
def Leaves (a : Passive) (k : Imprint) : Prop := a.applied.isSome = true ∧ a.imprint = k

/-- The same ability, which may have been disabled or applied since. -/
structure SameFace (a b : Passive) : Prop where
  id : b.id = a.id
  source : b.source = a.source
  effect : b.effect = a.effect

namespace SameFace
variable {a b c : Passive}

theorem refl (a : Passive) : a.SameFace a := ⟨rfl, rfl, rfl⟩

theorem trans (h : a.SameFace b) (h' : b.SameFace c) : a.SameFace c :=
  ⟨h'.id.trans h.id, h'.source.trans h.source, h'.effect.trans h.effect⟩

theorem imprint (h : a.SameFace b) : b.imprint = a.imprint := by
  unfold Passive.imprint
  rw [h.effect]

theorem leaves (h : a.SameFace b) (happlied : b.applied = a.applied) {k : Imprint}
    (hk : a.Leaves k) : b.Leaves k := ⟨happlied ▸ hk.1, h.imprint.trans hk.2⟩

end SameFace
end Passive

/-- The object bears what that ability leaves. Of the abilities that it grants only those count that
are enabled. -/
def Piece.Bears (p : Piece) (id : AbilityId) : Imprint → Prop
  | .adjustment => ∃ x ∈ p.adjustments, x.ability = id
  | .status => ∃ x ∈ p.statuses, x.ability = id
  | .activation => ∃ x ∈ p.activations, x.ability = id
  | .grant => (∃ a ∈ p.passives, a.source = some id ∧ a.disabled = false) ∨
      ∃ t ∈ p.triggers, t.source = some id ∧ t.disabled = false

/-- What has been written on an object. `W` says what it may bear since, and `N` which abilities it
may have been given. -/
structure Piece.Written (W : AbilityId → Imprint → Prop) (N : Passive → Prop) (p q : Piece) :
    Prop where
  bears : ∀ id k, q.Bears id k → p.Bears id k ∨ W id k
  keeps : ∀ a ∈ p.passives, ∃ b ∈ q.passives, a.SameFace b ∧ b.applied = a.applied
  origin : ∀ b ∈ q.passives, (∃ a ∈ p.passives, a.SameFace b) ∨ N b

namespace Piece

variable {W : AbilityId → Imprint → Prop} {N : Passive → Prop}

theorem Written.refl (p : Piece) : p.Written W N p where
  bears _ _ := .inl
  keeps a ha := ⟨a, ha, .refl a, rfl⟩
  origin b hb := .inl ⟨b, hb, .refl b⟩

/-- As long as no ability is written on, only what is borne counts. -/
theorem Written.of_passives {p q : Piece} (h : q.passives = p.passives)
    (hbears : ∀ id k, q.Bears id k → p.Bears id k ∨ W id k) : p.Written W N q where
  bears := hbears
  keeps a ha := ⟨a, h ▸ ha, .refl a, rfl⟩
  origin b hb := .inl ⟨b, h ▸ hb, .refl b⟩

theorem Intact.bears {p q : Piece} (h : p.Intact q) {id : AbilityId} {k : Imprint}
    (hq : q.Bears id k) : p.Bears id k := by
  cases k <;> simp only [Bears, h.adjustments, h.statuses, h.activations, h.passives, h.triggers]
    at hq ⊢ <;> exact hq

theorem Intact.written {p q : Piece} (h : p.Intact q) : p.Written W N q :=
  .of_passives h.passives fun _ _ hq => .inl (h.bears hq)

theorem written_adjust (p : Piece) (ability : AbilityId) (scope : Scope) (adjustment : Adjustment)
    (hW : W ability .adjustment) : p.Written W N (p.adjust ability scope adjustment) := by
  unfold adjust
  split
  · exact .refl p
  · refine .of_passives rfl fun id k hq => ?_
    cases k with
    | adjustment =>
      obtain ⟨x, hx, rfl⟩ := hq
      obtain hx | hx := List.mem_append.1 hx
      · exact .inl ⟨x, hx, rfl⟩
      · obtain ⟨stat, -, rfl⟩ := List.mem_map.1 hx
        exact .inr hW
    | _ => exact .inl hq

theorem written_addStatus (p : Piece) (status : Status) (hW : W status.ability .status) :
    p.Written W N (p.addStatus status) := by
  unfold addStatus
  split
  · exact .refl p
  · refine .of_passives rfl fun id k hq => ?_
    cases k with
    | status =>
      obtain ⟨x, hx, rfl⟩ := hq
      obtain hx | hx := List.mem_append.1 hx
      · exact .inl ⟨x, hx, rfl⟩
      · exact .inr (List.mem_singleton.1 hx ▸ hW)
    | _ => exact .inl hq

theorem written_addActivation (p : Piece) (activation : Activation)
    (hW : W activation.ability .activation) : p.Written W N (p.addActivation activation) := by
  unfold addActivation
  split
  · exact .refl p
  · refine .of_passives rfl fun id k hq => ?_
    cases k with
    | activation =>
      obtain ⟨x, hx, rfl⟩ := hq
      obtain hx | hx := List.mem_append.1 hx
      · exact .inl ⟨x, hx, rfl⟩
      · exact .inr (List.mem_singleton.1 hx ▸ hW)
    | _ => exact .inl hq

/-! ### Grants -/

/-- Only what that ability grants is enabled or disabled. -/
theorem bears_setGrants {p : Piece} {source id : AbilityId} {disabled : Bool}
    (h : (p.setGrants source disabled).Bears id .grant) :
    id = source ∧ disabled = false ∨ id ≠ source ∧ p.Bears id .grant := by
  obtain ⟨_, hmem, hsource, henabled⟩ | ⟨_, hmem, hsource, henabled⟩ := h
  · obtain ⟨a, ha, rfl⟩ := List.mem_map.1 hmem
    by_cases hset : (a.source == some source) = true
    · rw [if_pos hset] at hsource henabled
      exact .inl ⟨Option.some.inj (hsource.symm.trans (eq_of_beq hset)), henabled⟩
    · rw [if_neg hset] at hsource henabled
      exact .inr ⟨fun heq => hset (by simp [hsource, heq]), .inl ⟨a, ha, hsource, henabled⟩⟩
  · obtain ⟨t, ht, rfl⟩ := List.mem_map.1 hmem
    by_cases hset : (t.source == some source) = true
    · rw [if_pos hset] at hsource henabled
      exact .inl ⟨Option.some.inj (hsource.symm.trans (eq_of_beq hset)), henabled⟩
    · rw [if_neg hset] at hsource henabled
      exact .inr ⟨fun heq => hset (by simp [hsource, heq]), .inr ⟨t, ht, hsource, henabled⟩⟩

theorem written_setGrants (p : Piece) (source : AbilityId) (disabled : Bool)
    (hW : disabled = false → W source .grant) : p.Written W N (p.setGrants source disabled) where
  bears id k hq := by
    cases k with
    | grant =>
      obtain ⟨rfl, henabled⟩ | ⟨-, hbears⟩ := bears_setGrants hq
      · exact .inr (hW henabled)
      · exact .inl hbears
    | _ => exact .inl hq
  keeps a ha := by
    refine ⟨_, List.mem_map_of_mem ha, ?_⟩
    split <;> exact ⟨⟨rfl, rfl, rfl⟩, rfl⟩
  origin b hb := by
    obtain ⟨a, ha, rfl⟩ := List.mem_map.1 hb
    refine .inl ⟨a, ha, ?_⟩
    split <;> exact ⟨rfl, rfl, rfl⟩

theorem written_addPassive (p : Piece) {a : Passive} (hN : N a)
    (hW : ∀ id, a.source = some id → W id .grant) : p.Written W N (p.addPassive a) where
  bears id k hq := by
    cases k with
    | grant =>
      obtain ⟨b, hb, hsource, henabled⟩ | hq := hq
      · obtain hb | hb := List.mem_append.1 hb
        · exact .inl (.inl ⟨b, hb, hsource, henabled⟩)
        · exact .inr (hW id (List.mem_singleton.1 hb ▸ hsource))
      · exact .inl (.inr hq)
    | _ => exact .inl hq
  keeps b hb := ⟨b, List.mem_append_left _ hb, .refl b, rfl⟩
  origin b hb := by
    obtain hb | hb := List.mem_append.1 hb
    · exact .inl ⟨b, hb, .refl b⟩
    · exact .inr (List.mem_singleton.1 hb ▸ hN)

theorem written_addTrigger (p : Piece) {t : Trigger}
    (hW : ∀ id, t.source = some id → W id .grant) : p.Written W N (p.addTrigger t) := by
  refine .of_passives rfl fun id k hq => ?_
  cases k with
  | grant =>
    obtain hq | ⟨u, hu, hsource, henabled⟩ := hq
    · exact .inl (.inl hq)
    · obtain hu | hu := List.mem_append.1 hu
      · exact .inl (.inr ⟨u, hu, hsource, henabled⟩)
      · exact .inr (hW id (List.mem_singleton.1 hu ▸ hsource))
  | _ => exact .inl hq

end Piece

/-! ### Withdrawals -/

/-- What passes a filter by ability is not of the one that is dropped. -/
theorem exists_mem_filter_ne {α : Type} {f : α → AbilityId} {ability id : AbilityId} {xs : List α}
    (h : ∃ x ∈ xs.filter (f · != ability), f x = id) : (∃ x ∈ xs, f x = id) ∧ ability ≠ id := by
  obtain ⟨x, hx, rfl⟩ := h
  obtain ⟨hx, hne⟩ := List.mem_filter.1 hx
  exact ⟨⟨x, hx, rfl⟩, Ne.symm (by simpa using hne)⟩

namespace Passive

/-- A withdrawal clears what the ability leaves, and nothing more. -/
theorem bears_clear {a : Passive} {p : Piece} {id : AbilityId} {k : Imprint}
    (h : (a.clear p).Bears id k) : p.Bears id k ∧ (a.imprint = k → a.id ≠ id) := by
  obtain ⟨ability, source, targets, effect, duration, disabled, applied⟩ := a
  unfold clear imprint at *
  cases effect with
  | adjust =>
    cases k with
    | adjustment => exact (exists_mem_filter_ne h).imp_right fun hne _ => hne
    | _ => exact ⟨h, nofun⟩
  | status =>
    cases k with
    | status => exact (exists_mem_filter_ne h).imp_right fun hne _ => hne
    | _ => exact ⟨h, nofun⟩
  | activated =>
    cases k with
    | activation => exact (exists_mem_filter_ne h).imp_right fun hne _ => hne
    | _ => exact ⟨h, nofun⟩
  | grant =>
    cases k with
    | grant =>
      obtain ⟨-, hnot⟩ | ⟨hne, hbears⟩ := Piece.bears_setGrants h
      · cases hnot
      · exact ⟨hbears, fun _ => hne.symm⟩
    | _ => exact ⟨h, nofun⟩

theorem written_clear {N : Passive → Prop} (a : Passive) (p : Piece) :
    p.Written (fun _ _ => False) N (a.clear p) := by
  have hbears : ∀ id k, (a.clear p).Bears id k → p.Bears id k ∨ False :=
    fun id k h => .inl (bears_clear h).1
  unfold clear at hbears ⊢
  split at hbears
  · exact .of_passives rfl hbears
  · exact .of_passives rfl hbears
  · exact p.written_setGrants a.id true nofun
  · exact .of_passives rfl hbears

end Passive

/-! ### Boards -/

namespace Board

/-- The object is on the board and bears it. -/
def Bears (b : Board) (q : PieceId) (id : AbilityId) (k : Imprint) : Prop :=
  ∃ p, b.get? q = some p ∧ p.Bears id k

/-- The ability is installed on the object. -/
def Installed (b : Board) (o : PieceId) (a : Passive) : Prop :=
  ∃ p, b.get? o = some p ∧ a ∈ p.passives

/-- An applied ability of that id is installed, and that is what it leaves. -/
def Upholds (b : Board) (id : AbilityId) (k : Imprint) : Prop :=
  ∃ o a, b.Installed o a ∧ a.id = id ∧ a.Leaves k

/-- What has been written on the objects of a board, and which abilities they have been given. -/
structure Written (W : PieceId → AbilityId → Imprint → Prop) (N : Passive → Prop) (b b' : Board) :
    Prop where
  bears : ∀ q id k, b'.Bears q id k → b.Bears q id k ∨ W q id k
  keeps : ∀ o a, b.Installed o a → ∃ a', b'.Installed o a' ∧ a.SameFace a' ∧ a'.applied = a.applied
  origin : ∀ o a', b'.Installed o a' → (∃ a, b.Installed o a ∧ a.SameFace a') ∨ N a'

variable {b b' b'' : Board} {W W' : PieceId → AbilityId → Imprint → Prop} {N N' : Passive → Prop}

namespace Written

theorem refl (b : Board) : b.Written W N b where
  bears _ _ _ := .inl
  keeps _ a ha := ⟨a, ha, .refl a, rfl⟩
  origin _ a ha := .inl ⟨a, ha, .refl a⟩

theorem trans (h : b.Written W N b') (h' : b'.Written W N b'')
    (hN : ∀ a a', a.SameFace a' → N a → N a') : b.Written W N b'' where
  bears q id k hq := (h'.bears q id k hq).elim (h.bears q id k) .inr
  keeps o a ha := by
    obtain ⟨a', ha', hface, happlied⟩ := h.keeps o a ha
    obtain ⟨a'', ha'', hface', happlied'⟩ := h'.keeps o a' ha'
    exact ⟨a'', ha'', hface.trans hface', happlied'.trans happlied⟩
  origin o a'' ha'' := by
    obtain ⟨a', ha', hface⟩ | hnew := h'.origin o a'' ha''
    · obtain ⟨a, ha, hface'⟩ | hnew := h.origin o a' ha'
      · exact .inl ⟨a, ha, hface'.trans hface⟩
      · exact .inr (hN a' a'' hface hnew)
    · exact .inr hnew

theorem mono (h : b.Written W N b') (hW : ∀ q id k, W q id k → W' q id k)
    (hN : ∀ a, N a → N' a) : b.Written W' N' b' where
  bears q id k hq := (h.bears q id k hq).imp_right (hW q id k)
  keeps := h.keeps
  origin o a ha := (h.origin o a ha).imp_right (hN a)

/-- An ability that answers for what it has left answers for it still. -/
theorem answers (h : b.Written W N b') {o : PieceId} {a : Passive} {k : Imprint}
    (ha : b.Installed o a) (hleaves : a.Leaves k) :
    ∃ a', b'.Installed o a' ∧ a'.id = a.id ∧ a'.Leaves k ∧ a'.applied = a.applied := by
  obtain ⟨a', ha', hface, happlied⟩ := h.keeps o a ha
  exact ⟨a', ha', hface.id, hface.leaves happlied hleaves, happlied⟩

theorem upholds (h : b.Written W N b') {id : AbilityId} {k : Imprint} (hk : b.Upholds id k) :
    b'.Upholds id k := by
  obtain ⟨o, a, ha, hid, hleaves⟩ := hk
  obtain ⟨a', ha', hid', hleaves', -⟩ := h.answers ha hleaves
  exact ⟨o, a', ha', hid'.trans hid, hleaves'⟩

theorem of_map {g : PieceId × Piece → Piece}
    (hg : ∀ q (p : Piece), p.Written (W q) N (g (q, p))) (b : Board) :
    b.Written W N ⟨b.entries.map fun e => (e.1, g e)⟩ where
  bears q id k := by
    rintro ⟨_, hq, hbears⟩
    rw [get?_map] at hq
    obtain ⟨p, hp, rfl⟩ := Option.map_eq_some_iff.1 hq
    exact ((hg q p).bears id k hbears).imp_left fun hbefore => ⟨p, hp, hbefore⟩
  keeps o a := by
    rintro ⟨p, hp, ha⟩
    obtain ⟨a', ha', hsame⟩ := (hg o p).keeps a ha
    exact ⟨a', ⟨g (o, p), by rw [get?_map, hp]; rfl, ha'⟩, hsame⟩
  origin o a' := by
    rintro ⟨_, hq, ha'⟩
    rw [get?_map] at hq
    obtain ⟨p, hp, rfl⟩ := Option.map_eq_some_iff.1 hq
    obtain ⟨a, ha, hface⟩ | hnew := (hg o p).origin a' ha'
    · exact .inl ⟨a, ⟨p, hp, ha⟩, hface⟩
    · exact .inr hnew

theorem of_becomes {V : AbilityId → Imprint → Prop} (h : b.Becomes (Piece.Written V N) b') :
    b.Written (fun _ => V) N b' := by
  obtain ⟨g, hg, rfl⟩ := h
  exact of_map (fun q p => hg (q, p)) b

/-- What is written on one object. -/
theorem modify {V : AbilityId → Imprint → Prop} {f : Piece → Piece}
    (hf : ∀ p : Piece, p.Written V N (f p)) (b : Board) (id : PieceId) :
    b.Written (fun q id' k => q = id ∧ V id' k) N (b.modify id f) := by
  rw [modify_eq_map]
  refine of_map (fun q p => ?_) b
  dsimp only
  split
  · rename_i hq
    refine ⟨fun id' k hk => ?_, (hf p).keeps, (hf p).origin⟩
    exact ((hf p).bears id' k hk).imp_right fun hnew => ⟨eq_of_beq hq, hnew⟩
  · exact .refl p

/-- An object that comes without any ability. -/
theorem enter (b : Board) (id : PieceId) (card : Card) (owner : Color) (hex : Hex)
    (justPlayed : Bool) : b.Written W N
      (b.enter { Piece.new id card owner hex with justPlayed := justPlayed }) where
  bears q id k := by
    rintro ⟨p, hp, hbears⟩
    obtain ⟨-, rfl⟩ | hold := get?_enter hp
    · cases k <;> simp [Piece.Bears, Piece.new] at hbears
    · exact .inl ⟨p, hold, hbears⟩
  keeps o a := by
    rintro ⟨p, hp, ha⟩
    exact ⟨a, ⟨p, get?_enter_of_some _ hp, ha⟩, .refl a, rfl⟩
  origin o a := by
    rintro ⟨p, hp, ha⟩
    obtain ⟨-, rfl⟩ | hold := get?_enter hp
    · exact nomatch ha
    · exact .inl ⟨a, ⟨p, hold, ha⟩, .refl a⟩

end Written

theorem Toured.written (h : b.Toured b') : b.Written W N b' := by
  cases h with
  | stays h =>
    have hall : b.Becomes (Piece.Written (fun _ _ => False) N) b' :=
      h.mono fun _ _ => Piece.Intact.written
    exact (Written.of_becomes hall).mono (fun _ _ _ => False.elim) fun _ => id
  | comes => exact .enter b _ _ _ _ _

end Board

/-! ### Withdrawals one after the other -/

namespace Match

variable {m : Match} {q : PieceId} {id : AbilityId} {k : Imprint}

theorem bears_withdrawApplied {a : Passive} (h : (m.withdrawApplied a).board.Bears q id k) :
    m.board.Bears q id k ∧ (a.Leaves k → a.id ≠ id) := by
  unfold withdrawApplied at h
  split at h
  · rw [board_withdraw] at h
    obtain ⟨_, hq, hbears⟩ := h
    rw [Board.get?_mapPieces] at hq
    obtain ⟨p, hp, rfl⟩ := Option.map_eq_some_iff.1 hq
    obtain ⟨hbefore, hcleared⟩ := Passive.bears_clear hbears
    exact ⟨⟨p, hp, hbefore⟩, fun hleaves => hcleared hleaves.2⟩
  · rename_i hnot
    exact ⟨h, fun hleaves => absurd hleaves.1 hnot⟩

theorem bears_withdrawAll {as : List Passive} (h : (m.withdrawAll as).board.Bears q id k) :
    m.board.Bears q id k ∧ ∀ a ∈ as, a.Leaves k → a.id ≠ id := by
  induction as generalizing m with
  | nil => exact ⟨h, fun _ ha => nomatch ha⟩
  | cons a as ih =>
    obtain ⟨hlater, hcleared⟩ := ih (m := m.withdrawApplied a) h
    obtain ⟨hbefore, hfirst⟩ := bears_withdrawApplied hlater
    exact ⟨hbefore, List.forall_mem_cons.2 ⟨hfirst, hcleared⟩⟩

/-- A withdrawal writes nothing and gives nothing. -/
theorem written_withdrawAll (as : List Passive) (m : Match) :
    m.board.Written (fun _ _ _ => False) (fun _ => False) (m.withdrawAll as).board := by
  induction as generalizing m with
  | nil => exact .refl _
  | cons a as ih =>
    have hfirst : m.board.Written (fun _ _ _ => False) (fun _ => False)
        (m.withdrawApplied a).board :=
      .of_becomes (becomes_withdrawApplied .refl a a.written_clear m)
    exact hfirst.trans (ih _) fun _ _ _ => id

end Match
end HexDuel
