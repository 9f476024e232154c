import HexDuel.Proofs.Modifiers
import HexDuel.Proofs.Settling

/-!
Abilities that other abilities have granted. When everything has been brought up to date, an
ability that is enabled is one of the object's own or still granted to it. One that is disabled has
been left behind: the ability that had granted it was dropped last, too late for it to be withdrawn
in turn. That takes a grant of a grant; otherwise nothing that is disabled is left.
-/

set_option autoImplicit false

namespace HexDuel

/-! ### Disabled abilities -/

/-- Where the abilities of the object come from, and which of them are disabled. -/
def Piece.origins (p : Piece) : List (Option AbilityId × Bool) :=
  p.passives.map (fun a => (a.source, a.disabled)) ++ p.triggers.map fun t => (t.source, t.disabled)

/-- The object holds a disabled ability that comes from there. -/
def Piece.HoldsDisabled (p : Piece) (source : Option AbilityId) : Prop := (source, true) ∈ p.origins

/-- What becomes of an ability when the grants of that one are enabled or disabled. -/
def regrant (id : AbilityId) (disabled : Bool) (x : Option AbilityId × Bool) :
    Option AbilityId × Bool :=
  if x.1 = some id then (x.1, disabled) else x

namespace Piece

variable {p : Piece} {source : Option AbilityId} {id : AbilityId}

theorem origins_of_same {q : Piece} (hpassives : q.passives = p.passives)
    (htriggers : q.triggers = p.triggers) : q.origins = p.origins := by
  unfold origins
  rw [hpassives, htriggers]

theorem holdsDisabled_of_passive {a : Passive} (ha : a ∈ p.passives) (h : a.disabled = true) :
    p.HoldsDisabled a.source :=
  List.mem_append_left _ (List.mem_map.2 ⟨a, ha, by rw [h]⟩)

theorem holdsDisabled_of_trigger {t : Trigger} (ht : t ∈ p.triggers) (h : t.disabled = true) :
    p.HoldsDisabled t.source :=
  List.mem_append_right _ (List.mem_map.2 ⟨t, ht, by rw [h]⟩)

theorem bears_grant_iff : p.Bears id .grant ↔ (some id, false) ∈ p.origins := by
  simp [Bears, origins]

theorem hasGrantOf_iff : p.hasGrantOf id = true ↔ ∃ disabled, (some id, disabled) ∈ p.origins := by
  simp [hasGrantOf, origins, exists_or]

theorem origins_setGrants (p : Piece) (id : AbilityId) (disabled : Bool) :
    (p.setGrants id disabled).origins = p.origins.map (regrant id disabled) := by
  simp only [origins, setGrants, List.map_append, List.map_map]
  congr 1
  · refine List.map_congr_left fun a _ => ?_
    by_cases hset : a.source = some id <;> simp [regrant, hset]
  · refine List.map_congr_left fun t _ => ?_
    by_cases hset : t.source = some id <;> simp [regrant, hset]

/-- Only what the ability had granted may be disabled by it. -/
theorem holdsDisabled_setGrants {disabled : Bool}
    (h : (p.setGrants id disabled).HoldsDisabled source) :
    p.HoldsDisabled source ∨ source = some id ∧ p.Bears id .grant := by
  rw [HoldsDisabled, origins_setGrants] at h
  obtain ⟨⟨from', before⟩, hmem, heq⟩ := List.mem_map.1 h
  unfold regrant at heq
  split at heq
  · rename_i hset
    obtain ⟨rfl, -⟩ := Prod.mk.inj heq
    cases before with
    | true => exact .inl hmem
    | false => exact .inr ⟨hset, bears_grant_iff.2 (hset ▸ hmem)⟩
  · rw [heq] at hmem
    exact .inl hmem

/-- What is disabled stays so. -/
theorem HoldsDisabled.setGrants (h : p.HoldsDisabled source) (id : AbilityId) :
    (p.setGrants id true).HoldsDisabled source := by
  rw [HoldsDisabled, origins_setGrants]
  exact List.mem_map.2 ⟨_, h, by unfold regrant; split <;> rfl⟩

theorem holdsDisabled_of_hasGrantOf (h : p.hasGrantOf id = true) :
    (p.setGrants id true).HoldsDisabled (some id) := by
  obtain ⟨disabled, hmem⟩ := hasGrantOf_iff.1 h
  rw [HoldsDisabled, origins_setGrants]
  exact List.mem_map.2 ⟨_, hmem, if_pos rfl⟩

theorem hasGrantOf_setGrants (h : p.hasGrantOf id = true) (other : AbilityId) (disabled : Bool) :
    (p.setGrants other disabled).hasGrantOf id = true := by
  obtain ⟨before, hmem⟩ := hasGrantOf_iff.1 h
  rw [hasGrantOf_iff, origins_setGrants]
  refine ⟨(regrant other disabled (some id, before)).2, List.mem_map.2 ⟨_, hmem, ?_⟩⟩
  unfold regrant
  split <;> rfl

theorem origins_dropDisabled (p : Piece) : p.dropDisabled.origins = p.origins.filter (!·.2) := by
  simp only [origins, dropDisabled, List.filter_append, List.filter_map]
  rfl

theorem not_holdsDisabled_dropDisabled : ¬ p.dropDisabled.HoldsDisabled source := by
  rw [HoldsDisabled, origins_dropDisabled]
  exact fun h => nomatch (List.mem_filter.1 h).2

theorem bears_grant_dropDisabled : p.dropDisabled.Bears id .grant ↔ p.Bears id .grant := by
  rw [bears_grant_iff, bears_grant_iff, origins_dropDisabled, List.mem_filter]
  exact and_iff_left rfl

/-! ### An object's own abilities -/

/-- None of the abilities that no other has granted is disabled. -/
def Own (p : Piece) : Prop := ¬ p.HoldsDisabled none

theorem origins_setApplied (p : Piece) (id : AbilityId) (applied : Option Collection) :
    (p.changePassive id (·.setApplied applied)).origins = p.origins := by
  unfold origins changePassive
  congr 1
  generalize p.passives = as
  induction as with
  | nil => rfl
  | cons a as ih =>
    dsimp only at ih ⊢
    unfold changeFirst
    split
    · rfl
    · rw [List.map_cons, List.map_cons, ih]

theorem origins_countDown (p : Piece) : p.countDown.origins.Sublist p.origins := by
  refine List.Sublist.append (List.map_filterMap_sublist (fun a b h => ?_) p.passives)
    (List.map_filterMap_sublist (fun t u h => ?_) p.triggers)
  · obtain ⟨d, rfl⟩ := Passive.tick_eq h
    rfl
  · obtain ⟨d, rfl⟩ := Trigger.tick_eq h
    rfl

theorem mem_origins_addPassive {a : Passive} {x : Option AbilityId × Bool}
    (h : x ∈ (p.addPassive a).origins) : x ∈ p.origins ∨ x = (a.source, a.disabled) := by
  simp only [origins, addPassive, List.map_append, List.mem_append, List.map_singleton,
    List.mem_singleton] at h ⊢
  tauto

theorem mem_origins_addTrigger {t : Trigger} {x : Option AbilityId × Bool}
    (h : x ∈ (p.addTrigger t).origins) : x ∈ p.origins ∨ x = (t.source, t.disabled) := by
  simp only [origins, addTrigger, List.map_append, List.mem_append, List.map_singleton,
    List.mem_singleton] at h ⊢
  tauto

theorem origins_adjust (p : Piece) (ability : AbilityId) (scope : Scope) (adjustment : Adjustment) :
    (p.adjust ability scope adjustment).origins = p.origins := by
  unfold adjust
  split <;> rfl

theorem origins_addStatus (p : Piece) (status : Status) :
    (p.addStatus status).origins = p.origins := by
  unfold addStatus
  split <;> rfl

theorem origins_addActivation (p : Piece) (activation : Activation) :
    (p.addActivation activation).origins = p.origins := by
  unfold addActivation
  split <;> rfl

end Piece

/-! ### Withdrawals of grants -/

namespace Passive

variable {a : Passive} {p : Piece} {source : Option AbilityId} {id : AbilityId}

theorem clear_of_grant (ha : a.imprint = .grant) (p : Piece) :
    a.clear p = p.setGrants a.id true := by
  obtain ⟨ability, _, targets, effect, duration, disabled, applied⟩ := a
  cases effect with
  | grant => rfl
  | _ => cases ha

theorem origins_clear_of_other (ha : a.imprint ≠ .grant) : (a.clear p).origins = p.origins := by
  obtain ⟨ability, _, targets, effect, duration, disabled, applied⟩ := a
  cases effect with
  | grant => exact absurd rfl ha
  | _ => rfl

theorem holdsDisabled_clear (h : (a.clear p).HoldsDisabled source) : p.HoldsDisabled source ∨
    a.imprint = .grant ∧ source = some a.id ∧ p.Bears a.id .grant := by
  by_cases ha : a.imprint = .grant
  · rw [clear_of_grant ha] at h
    exact (Piece.holdsDisabled_setGrants h).imp_right fun hgrant => ⟨ha, hgrant⟩
  · rw [Piece.HoldsDisabled, origins_clear_of_other ha] at h
    exact .inl h

/-- What is disabled stays so. -/
theorem holdsDisabled_clear_of (a : Passive) (h : p.HoldsDisabled source) :
    (a.clear p).HoldsDisabled source := by
  by_cases ha : a.imprint = .grant
  · rw [clear_of_grant ha]
    exact h.setGrants a.id
  · rwa [Piece.HoldsDisabled, origins_clear_of_other ha]

theorem hasGrantOf_clear (a : Passive) (h : p.hasGrantOf id = true) :
    (a.clear p).hasGrantOf id = true := by
  by_cases ha : a.imprint = .grant
  · rw [clear_of_grant ha]
    exact Piece.hasGrantOf_setGrants h a.id true
  · rwa [Piece.hasGrantOf_iff, origins_clear_of_other ha, ← Piece.hasGrantOf_iff]

end Passive

/-- An own ability is never disabled: only what has been granted can be. -/
theorem Piece.kept_own : Kept Own where
  comes _ _ _ _ _ h := nomatch h
  intact _ _ h hp := by rwa [Own, HoldsDisabled, origins_of_same h.passives h.triggers]
  upkept := {
    refl := fun _ hp => hp
    trans := fun _ _ _ h h' hp => h' (h hp)
    inscribe := fun h p hp => by
      cases h with
      | setGrants id disabled =>
        exact fun h => (holdsDisabled_setGrants h).elim hp fun hnone => nomatch hnone.1
      | setApplied id applied => rwa [Own, HoldsDisabled, origins_setApplied]
      | adjust => rwa [Own, HoldsDisabled, origins_adjust]
      | addStatus => rwa [Own, HoldsDisabled, origins_addStatus]
      | addActivation => rwa [Own, HoldsDisabled, origins_addActivation]
    clear := fun a p hp h => (Passive.holdsDisabled_clear h).elim hp fun hnone => nomatch hnone.2.1
    dropDisabled := fun _ _ => not_holdsDisabled_dropDisabled
    addPassive := fun a _ ha hp h => (mem_origins_addPassive h).elim hp fun hnew =>
      nomatch ha.symm.trans (congrArg Prod.snd hnew).symm
    addTrigger := fun t _ ht hp h => (mem_origins_addTrigger h).elim hp fun hnew =>
      nomatch ht.symm.trans (congrArg Prod.snd hnew).symm }
  countDown p hp h := hp (p.origins_countDown.subset h)
  condemn _ hp := hp
  fall _ hp := hp

/-! ### The last clean-up -/

namespace Board

/-- Some object holds a disabled ability that comes from there. -/
def HoldsDisabled (b : Board) (source : Option AbilityId) : Prop :=
  ∃ q p, b.get? q = some p ∧ p.HoldsDisabled source

/-- Every ability is enabled. -/
def Enabled (b : Board) : Prop := ∀ q p, b.get? q = some p →
  (∀ a ∈ p.passives, a.disabled = false) ∧ ∀ t ∈ p.triggers, t.disabled = false

/-- An ability that is disabled has granted one that is still enabled. -/
def Strands (b : Board) : Prop :=
  ∃ o a q, b.Installed o a ∧ a.disabled = true ∧ b.Bears q a.id .grant

variable {b b' : Board}

theorem enabled_iff : b.Enabled ↔ ∀ source, ¬ b.HoldsDisabled source := by
  refine ⟨?_, fun h q p hp => ⟨fun a ha => ?_, fun t ht => ?_⟩⟩
  · rintro h source ⟨q, p, hp, hmem⟩
    obtain hmem | hmem := List.mem_append.1 hmem
    · obtain ⟨a, ha, heq⟩ := List.mem_map.1 hmem
      simpa [(h q p hp).1 a ha] using congrArg Prod.snd heq
    · obtain ⟨t, ht, heq⟩ := List.mem_map.1 hmem
      simpa [(h q p hp).2 t ht] using congrArg Prod.snd heq
  · simpa using fun hdisabled => h a.source ⟨q, p, hp, Piece.holdsDisabled_of_passive ha hdisabled⟩
  · simpa using fun hdisabled => h t.source ⟨q, p, hp, Piece.holdsDisabled_of_trigger ht hdisabled⟩

theorem Every.own (hb : b.Every Piece.Own) : ¬ b.HoldsDisabled none := by
  rintro ⟨q, p, hp, h⟩
  exact hb _ (mem_of_get? hp) h

end Board

namespace Match

variable {m : Match} {source : Option AbilityId} {as : List Passive}

theorem holdsDisabled_withdrawAll (h : (m.withdrawAll as).board.HoldsDisabled source) :
    m.board.HoldsDisabled source ∨
      ∃ a ∈ as, source = some a.id ∧ ∃ q, m.board.Bears q a.id .grant := by
  induction as generalizing m with
  | nil => exact .inl h
  | cons a as ih =>
    obtain ⟨q, p', hp', hdisabled⟩ | ⟨b, hb, hsource, q, hq⟩ := ih (m := m.withdrawApplied a) h
    · have hbecomes := becomes_withdrawApplied (R := fun p p' => p'.HoldsDisabled source →
          p.HoldsDisabled source ∨ source = some a.id ∧ p.Bears a.id .grant)
        (fun _ => .inl) a (fun _ h => (Passive.holdsDisabled_clear h).imp_right And.right) m
      obtain ⟨p, hp, hkept⟩ := hbecomes.get? hp'
      obtain hbefore | ⟨hsource, hbears⟩ := hkept hdisabled
      · exact .inl ⟨q, p, hp, hbefore⟩
      · exact .inr ⟨a, List.mem_cons_self, hsource, q, p, hp, hbears⟩
    · exact .inr ⟨b, List.mem_cons_of_mem _ hb, hsource, q, (bears_withdrawApplied hq).1⟩

/-- Whatever it has granted is disabled in the end, wherever in the row the ability is withdrawn. -/
theorem holdsDisabled_of_withdrawAll {a : Passive} (ha : a ∈ as) (hleaves : a.Leaves .grant)
    {q : PieceId} (hq : m.board.Bears q a.id .grant) :
    (m.withdrawAll as).board.HoldsDisabled (some a.id) := by
  obtain ⟨xs, ys, rfl⟩ := List.append_of_mem ha
  obtain ⟨p, hp, hbears⟩ := hq
  have hbefore := becomes_withdrawAll (R := fun p p' => p.hasGrantOf a.id = true →
      p'.hasGrantOf a.id = true) (fun _ h => h) (fun _ _ _ h h' hp => h' (h hp))
    (fun x _ h => Passive.hasGrantOf_clear x h) xs m
  obtain ⟨p₁, hp₁, hkept⟩ := hbefore.get?_of_some hp
  have hheld : p₁.hasGrantOf a.id = true :=
    hkept (Piece.hasGrantOf_iff.2 ⟨false, Piece.bears_grant_iff.1 hbears⟩)
  have hwithdrawn : ((m.withdrawAll xs).withdrawApplied a).board.get? q = some (a.clear p₁) := by
    rw [withdrawApplied, if_pos hleaves.1, board_withdraw, Board.get?_mapPieces, hp₁]
    rfl
  have hdisabled : (a.clear p₁).HoldsDisabled (some a.id) :=
    Passive.clear_of_grant hleaves.2 p₁ ▸ Piece.holdsDisabled_of_hasGrantOf hheld
  have hafter := becomes_withdrawAll (R := fun p p' => p.HoldsDisabled (some a.id) →
      p'.HoldsDisabled (some a.id)) (fun _ h => h) (fun _ _ _ h h' hp => h' (h hp))
    (fun x _ h => Passive.holdsDisabled_clear_of x h) ys ((m.withdrawAll xs).withdrawApplied a)
  obtain ⟨p₂, hp₂, hstays⟩ := hafter.get?_of_some hwithdrawn
  have hsplit : m.withdrawAll (xs ++ a :: ys) =
      ((m.withdrawAll xs).withdrawApplied a).withdrawAll ys := by
    simp [withdrawAll, List.foldl_append]
  rw [hsplit]
  exact ⟨q, p₂, hp₂, hstays hdisabled⟩

/-! ### The clean-up -/

theorem installed_of_expired {a : Passive}
    (ha : a ∈ m.board.pieces.flatMap fun p => p.passives.filter (·.disabled))
    (hids : m.board.ids.Nodup) : (∃ o, m.board.Installed o a) ∧ a.disabled = true := by
  obtain ⟨p, hp, hmem⟩ := List.mem_flatMap.1 ha
  obtain ⟨hmem, hdisabled⟩ := List.mem_filter.1 hmem
  obtain ⟨e, he, rfl⟩ := List.mem_map.1 hp
  exact ⟨⟨e.1, e.2, Board.get?_of_mem hids he, hmem⟩, hdisabled⟩

theorem expired_of_installed {a : Passive} {o : PieceId} (ha : m.board.Installed o a)
    (hdisabled : a.disabled = true) :
    a ∈ m.board.pieces.flatMap fun p => p.passives.filter (·.disabled) := by
  obtain ⟨p, hp, hmem⟩ := ha
  have hpiece : p ∈ m.board.pieces := List.mem_map_of_mem (f := Prod.snd) (Board.mem_of_get? hp)
  exact List.mem_flatMap.2 ⟨p, hpiece, List.mem_filter.2 ⟨hmem, hdisabled⟩⟩

/-- Whatever is disabled when the disabled abilities have been dropped had been granted by one of
them. -/
theorem stranded_of_holdsDisabled (hids : m.board.ids.Nodup)
    (h : m.dropDisabled.board.HoldsDisabled source) :
    ∃ o a q, m.board.Installed o a ∧ a.disabled = true ∧ source = some a.id ∧
      m.board.Bears q a.id .grant := by
  obtain ⟨q, p', hp', hdisabled⟩ | ⟨a, ha, hsource, q, p', hp', hbears⟩ :=
    holdsDisabled_withdrawAll h
  · have hdropped : m.board.Becomes (fun p p' => ¬ p'.HoldsDisabled source)
        (m.board.mapPieces (·.dropDisabled)) :=
      .mapPieces (fun _ => Piece.not_holdsDisabled_dropDisabled) m.board
    obtain ⟨-, -, hnot⟩ := hdropped.get? hp'
    exact absurd hdisabled hnot
  · obtain ⟨⟨o, ha⟩, hdisabled⟩ := installed_of_expired ha hids
    have hdropped : m.board.Becomes (fun p p' => p'.Bears a.id .grant → p.Bears a.id .grant)
        (m.board.mapPieces (·.dropDisabled)) :=
      .mapPieces (fun _ => Piece.bears_grant_dropDisabled.1) m.board
    obtain ⟨p, hp, hbefore⟩ := hdropped.get? hp'
    exact ⟨o, a, q, ha, hdisabled, hsource, p, hp, hbefore hbears⟩

theorem holdsDisabled_of_stranded {a : Passive} {o q : PieceId} (ha : m.board.Installed o a)
    (hdisabled : a.disabled = true) (hleaves : a.Leaves .grant)
    (hq : m.board.Bears q a.id .grant) : m.dropDisabled.board.HoldsDisabled (some a.id) := by
  obtain ⟨p, hp, hbears⟩ := hq
  have hdropped : m.board.Becomes (fun p p' => p.Bears a.id .grant → p'.Bears a.id .grant)
      (m.board.mapPieces (·.dropDisabled)) :=
    .mapPieces (fun _ => Piece.bears_grant_dropDisabled.2) m.board
  obtain ⟨p', hp', hafter⟩ := hdropped.get?_of_some hp
  exact holdsDisabled_of_withdrawAll (m := m.changeBoard (·.mapPieces (·.dropDisabled)))
    (expired_of_installed ha hdisabled) hleaves ⟨p', hp', hafter hbears⟩

/-- A disabled ability is gone when they have been dropped. -/
theorem Numbered.gone_of_dropDisabled (hm : m.Numbered) {a : Passive} {o : PieceId}
    (ha : m.board.Installed o a) (hdisabled : a.disabled = true) :
    ∀ o' b, m.dropDisabled.board.Installed o' b → b.id ≠ a.id := by
  intro o' b hb hid
  obtain ⟨b₀, ⟨p', hp', hmem⟩, hface⟩ | hnew := (written_withdrawAll _ _).origin o' b hb
  · have hdropped : m.board.Becomes (fun p p' => p' = p.dropDisabled)
        (m.board.mapPieces (·.dropDisabled)) :=
      .mapPieces (R := fun p p' => p' = p.dropDisabled) (fun _ => rfl) m.board
    obtain ⟨p, hp, rfl⟩ := hdropped.get? hp'
    obtain ⟨hmem, henabled⟩ := List.mem_filter.1 hmem
    have hsame : b₀ = a :=
      (ha.unique hm.abilities ⟨p, hp, hmem⟩ (hface.id.symm.trans hid)).2
    rw [hsame, hdisabled] at henabled
    cases henabled
  · exact hnew

end Match

/-! ### Grants of grants -/

/-- No ability that has been granted grants any, and none grants one that would. -/
def Board.Flat (b : Board) : Prop := ∀ o a, b.Installed o a →
  (a.source.isSome = true → a.imprint ≠ .grant) ∧ ∀ g, Resolving.Gives a g → g.imprint ≠ .grant

theorem Resolving.Gives.sameFace {a b g : Passive} (hface : a.SameFace b) (h : Gives b g) :
    Gives a g := by
  obtain ⟨sentence, heffect, hgives⟩ := h
  exact ⟨sentence, hface.effect ▸ heffect, hgives⟩

/-- What grants nothing gives nothing. -/
theorem Resolving.Gives.imprint {a g : Passive} (h : Gives a g) : a.imprint = .grant := by
  obtain ⟨sentence, heffect, -⟩ := h
  rw [Passive.imprint, heffect]

namespace Play

variable {s s' : Stage}

/-- An installed ability is brought up to date. -/
def Renewed (s s' : Stage) : Prop :=
  ∃ owner a, s.game.board.Installed owner a ∧ Reapplied owner a s s'

theorem goes_renewed_one (owner : PieceId) (id : AbilityId) :
    Goes Renewed (reapplyOne owner id) := by
  intro s u s' h
  obtain ⟨-, rfl⟩ | ⟨p, a, hp, hfound, hreapplied⟩ := reapplied_of_run h
  · exact .refl
  · exact .single ⟨owner, a, ⟨p, hp, List.mem_of_find?_eq_some hfound⟩, hreapplied⟩

theorem goes_renewed_of (owner : PieceId) : Goes Renewed (reapplyOf owner) := by
  refine .piece? fun p => ?_
  split
  · exact .pure _
  · exact .forM fun a => goes_renewed_one owner a.id

/-- Whatever ability is there afterwards was there before, or the one that is brought up to date has
just given it. -/
theorem Reapplied.origin {owner o : PieceId} {a b : Passive} (h : Reapplied owner a s s')
    (hb : s'.game.board.Installed o b) :
    (∃ b₀, s.game.board.Installed o b₀ ∧ b₀.SameFace b) ∨ Resolving.Gives a b := by
  have hrecorded : ∀ {m : Match} {applied : Option Collection},
      (m.changePiece owner (·.changePassive a.id (·.setApplied applied))).board.Installed o b →
      ∃ b₀, m.board.Installed o b₀ ∧ b₀.SameFace b := by
    rintro m applied ⟨p', hp', hmem⟩
    have hset : (m.board.modify owner (·.changePassive a.id (·.setApplied applied))).get? o =
        some p' := hp'
    rw [Board.get?_modify] at hset
    obtain ⟨p, hp, rfl⟩ := Option.map_eq_some_iff.1 hset
    split at hmem
    · obtain hold | ⟨b₀, hb₀, rfl⟩ := Piece.mem_changeFirst hmem
      · exact ⟨b, ⟨p, hp, hold⟩, .refl b⟩
      · exact ⟨b₀, ⟨p, hp, hb₀⟩, ⟨rfl, rfl, rfl⟩⟩
    · exact ⟨b, ⟨p, hp, hmem⟩, .refl b⟩
  have hwithdrawn : ∀ {b₀}, (s.map (·.withdrawApplied a)).game.board.Installed o b₀ →
      ∃ b₁, s.game.board.Installed o b₁ ∧ b₁.SameFace b₀ := fun hb₀ =>
    ((Match.written_withdrawAll [a] s.game).origin o _ hb₀).resolve_right id
  cases h with
  | disabled =>
    obtain ⟨b₀, hb₀, hface⟩ := hrecorded hb
    obtain ⟨b₁, hb₁, hface'⟩ := hwithdrawn hb₀
    exact .inl ⟨b₁, hb₁, hface'.trans hface⟩
  | enabled _ hfind hrun =>
    obtain ⟨b₀, hb₀, hface⟩ := hrecorded hb
    have happlies := (Resolving.applies_of_run hrun).of_inquired hfind
    obtain ⟨b₁, hb₁, hface'⟩ | ⟨sentence, heffect, hgives⟩ := happlies.written.origin o b₀ hb₀
    · obtain ⟨b₂, hb₂, hface''⟩ := hwithdrawn hb₁
      exact .inl ⟨b₂, hb₂, (hface''.trans hface').trans hface⟩
    · exact .inr ⟨sentence, heffect, hgives.sameFace hface⟩

theorem Renewed.flat (h : Renewed s s') (hs : s.game.board.Flat) : s'.game.board.Flat := by
  obtain ⟨owner, a, ha, hreapplied⟩ := h
  intro o b hb
  obtain ⟨b₀, hb₀, hface⟩ | hgives := hreapplied.origin hb
  · obtain ⟨hgranted, hgives⟩ := hs o b₀ hb₀
    exact ⟨fun hsource => hface.imprint ▸ hgranted (hface.source ▸ hsource),
      fun g hg => hgives g (hg.sameFace hface)⟩
  · have hplain : b.imprint ≠ .grant := (hs owner a ha).2 b hgives
    exact ⟨fun _ => hplain, fun g hg => absurd hg.imprint hplain⟩

theorem flat_of_renewed (h : Relation.ReflTransGen Renewed s s') (hs : s.game.board.Flat) :
    s'.game.board.Flat := by
  induction h with
  | refl => exact hs
  | tail _ hlast ih => exact hlast.flat ih

end Play

/-! ### What upkeep leaves -/

namespace Board

/-- An ability of the object `q` that comes from `source` and is disabled or not is as it should be.
An own one is enabled. One that has been granted is enabled as long as the ability that has granted
it reaches the object, and one that is disabled has been granted by an ability that is gone. -/
def Licenses (b : Board) (q : PieceId) : Option AbilityId → Bool → Prop
  | none, disabled => disabled = false
  | some id, false => ∃ o a, b.Installed o a ∧ a.id = id ∧ a.Leaves .grant ∧ b.Reaches a q
  | some id, true => ∀ o a, b.Installed o a → a.id ≠ id

/-- What is disabled comes from an ability that is gone. -/
def Clears (b : Board) : Prop := ∀ source, b.HoldsDisabled source →
  ∃ id, source = some id ∧ ∀ o a, b.Installed o a → a.id ≠ id

end Board

namespace Match

/-- Upkeep may come at this stage: it is one of a command, or of the course of a destruction. -/
inductive Underway (m : Match) : Stage → Prop where
  | begin {s : Stage} : m.Retold s.game → m.Underway s
  | act {s s' : Stage} : m.Underway s → Act s s' → m.Underway s'
  | topple {s start : Stage} {id : PieceId} (card : Card) : m.Underway s → s.Dooms id start →
    m.Underway (start.topple id card)
  | takeOff {s : Stage} {id : PieceId} {p : Piece} : m.Underway s →
    s.game.board.get? id = some p →
    m.Underway (s.map fun m => (m.changeBoard (·.erase id)).withdrawAll p.passives)

/-- What the abilities of a match have in common at all times. -/
structure Ordered (F : AbilityId → Prop) (m : Match) : Prop where
  numbered : m.Numbered
  accounted : m.Accounted F Owed
  own : m.board.Every Piece.Own

variable {F : AbilityId → Prop} {m : Match} {st st' : Stage}

theorem Underway.ordered (h : m.Underway st) (hm : m.Ordered F) : st.game.Ordered F := by
  induction h with
  | begin htold =>
    obtain ⟨hnumbered, haccounted⟩ :=
      (lasting_accounted F).retold m _ htold ⟨hm.numbered, hm.accounted⟩
    exact ⟨hnumbered, haccounted, (lasting_every Piece.kept_own).retold m _ htold hm.own⟩
  | act _ h ih =>
    exact ⟨(h.deeds.follows ih.numbered).1, h.accounted ih.numbered ih.accounted,
      h.every Piece.kept_own ih.own⟩
  | @topple s start id card _ hdooms ih =>
    refine ⟨((hdooms.deeds card).follows ih.numbered).1, hdooms.accounted card ih.accounted, ?_⟩
    obtain rfl | rfl := hdooms
    · exact ih.own.modify Piece.kept_own.fall id
    · exact (ih.own.modify Piece.kept_own.condemn id).modify Piece.kept_own.fall id
  | @takeOff s id p _ hp ih =>
    refine ⟨ih.numbered.erased id p.passives, ih.accounted.erased hp, ?_⟩
    have hupkept := Piece.kept_own.upkept
    exact (ih.own.erase id).becomes
      (becomes_withdrawAll hupkept.refl hupkept.trans hupkept.clear p.passives _)

/-- Everything is up to date. Whatever stands on an object or on the cost of a card in hand is there
by an installed ability, and by one that reaches the object. -/
structure Governed (F : AbilityId → Prop) (m : Match) : Prop where
  passives : ∀ q p, m.board.get? q = some p → ∀ a ∈ p.passives,
    m.board.Licenses q a.source a.disabled
  triggers : ∀ q p, m.board.get? q = some p → ∀ t ∈ p.triggers,
    m.board.Licenses q t.source t.disabled
  imprints : ∀ q id k, m.board.Bears q id k → ∃ o a, m.board.Installed o a ∧ a.id = id ∧
    a.Leaves k ∧ m.board.Reaches a q
  costs : ∀ c, ∀ card ∈ (m.seat c).hand, ∀ x ∈ card.costAdjustments,
    F x.ability ∨ m.board.Upholds x.ability .adjustment

theorem Accounted.governed (haccounted : m.Accounted F fun _ _ => False) (hm : m.board.Clears) :
    m.Governed F := by
  have himprints : ∀ q id k, m.board.Bears q id k → ∃ o a, m.board.Installed o a ∧ a.id = id ∧
      a.Leaves k ∧ m.board.Reaches a q := by
    intro q id k hq
    obtain ⟨o, a, ha, hid, hleaves, hreach⟩ := haccounted.bears q id k hq
    exact ⟨o, a, ha, hid, hleaves, hreach.resolve_right not_false⟩
  have hlicenses : ∀ q source disabled,
      (disabled = true → m.board.HoldsDisabled source) →
      (disabled = false → ∀ id, source = some id → m.board.Bears q id .grant) →
      m.board.Licenses q source disabled := by
    intro q source disabled hdisabled henabled
    cases disabled with
    | true =>
      obtain ⟨id, rfl, hgone⟩ := hm source (hdisabled rfl)
      exact hgone
    | false =>
      cases source with
      | none => rfl
      | some id => exact himprints q id .grant (henabled rfl id rfl)
  refine ⟨fun q p hp a ha => ?_, fun q p hp t ht => ?_, himprints,
    fun c => (haccounted.costs c).hand⟩
  · exact hlicenses q a.source a.disabled
      (fun hdisabled => ⟨q, p, hp, Piece.holdsDisabled_of_passive ha hdisabled⟩)
      fun henabled id hsource => ⟨p, hp, .inl ⟨a, ha, hsource, henabled⟩⟩
  · exact hlicenses q t.source t.disabled
      (fun hdisabled => ⟨q, p, hp, Piece.holdsDisabled_of_trigger ht hdisabled⟩)
      fun henabled id hsource => ⟨p, hp, .inr ⟨t, ht, hsource, henabled⟩⟩

theorem Ordered.clears_dropDisabled (hm : m.Ordered F) : m.dropDisabled.board.Clears := by
  intro source h
  obtain ⟨o, a, q, ha, hdisabled, hsource, -⟩ := stranded_of_holdsDisabled hm.numbered.ids h
  exact ⟨a.id, hsource, hm.numbered.gone_of_dropDisabled ha hdisabled⟩

/-- Only what a disabled ability had granted is left behind by the clean-up. -/
theorem Accounted.enabled_dropDisabled (hm : m.Accounted F fun _ _ => False)
    (hnumbered : m.Numbered) : m.dropDisabled.board.Enabled ↔ ¬ m.board.Strands := by
  rw [Board.enabled_iff]
  refine ⟨?_, fun h source hdisabled => ?_⟩
  · rintro h ⟨o, a, q, ha, hdisabled, hq⟩
    obtain ⟨o', a', ha', hid, hleaves, -⟩ := hm.bears q a.id .grant hq
    obtain ⟨-, rfl⟩ := ha.unique hnumbered.abilities ha' hid
    exact h _ (holdsDisabled_of_stranded ha hdisabled hleaves hq)
  · obtain ⟨o, a, q, ha, hdis, -, hq⟩ := stranded_of_holdsDisabled hnumbered.ids hdisabled
    exact h ⟨o, a, q, ha, hdis, hq⟩

/-- What is disabled has been granted, and where grants are flat it has granted nothing itself. -/
theorem Accounted.not_strands (hm : m.Accounted F fun _ _ => False) (hnumbered : m.Numbered)
    (hown : m.board.Every Piece.Own) (hflat : m.board.Flat) : ¬ m.board.Strands := by
  rintro ⟨o, a, q, ha, hdisabled, hq⟩
  obtain ⟨o', a', ha', hid, hleaves, -⟩ := hm.bears q a.id .grant hq
  obtain ⟨-, rfl⟩ := ha.unique hnumbered.abilities ha' hid
  have hsource : a'.source.isSome = true := by
    obtain ⟨p, hp, hmem⟩ := ha
    cases hsource : a'.source with
    | none =>
      have hheld := Piece.holdsDisabled_of_passive hmem hdisabled
      exact absurd ⟨o, p, hp, hsource ▸ hheld⟩ hown.own
    | some id => rfl
  exact (hflat o a' ha).1 hsource hleaves.2

/-- What upkeep comes to. -/
theorem Ordered.reapplied (hs : st.game.Ordered F) (h : Play.reapply.run st = .ok ((), st')) :
    st'.game.board.Clears ∧ st'.game.Accounted F (fun _ _ => False) ∧
    ∃ visited, (st.game.board.ids.forM Play.reapplyOf).run st = .ok ((), visited) ∧
      (st'.game.board.Enabled ↔ ¬ visited.game.board.Strands) ∧
      (st.game.board.Flat → st'.game.board.Enabled) := by
  obtain ⟨visited, hpass, rfl⟩ := Play.visited_of_reapply h
  have htended := Play.Goes.forM Play.goes_reapplyOf _ _ _ hpass
  have hnumbered : visited.game.Numbered := numbered_of_tended hs.numbered htended
  have haccounted := hs.accounted.visited hs.numbered hpass
  have hown : visited.game.board.Every Piece.Own := hs.own.tended Piece.kept_own htended
  have hordered : visited.game.Ordered F := ⟨hnumbered, haccounted.owed, hown⟩
  have henabled := haccounted.enabled_dropDisabled hnumbered
  refine ⟨hordered.clears_dropDisabled, haccounted.dropDisabled, visited, hpass, henabled,
    fun hflat => ?_⟩
  have hrenewed := Play.Goes.forM Play.goes_renewed_of _ _ _ hpass
  exact henabled.2 (haccounted.not_strands hnumbered hown (Play.flat_of_renewed hrenewed hflat))

end Match

/-! ### Commands -/

namespace Play

variable {run : Runner} {s s' : Stage}

/-- The last thing that settling does to the objects is to bring everything up to date. -/
theorem upkeep_of_settleAll (hrun : run.Goes) {ids : List PieceId}
    (h : (settleAll run ids).run s = .ok ((), s')) :
    s' = s ∨ ∃ buried, Act s buried ∧ reapply.run buried = .ok ((), s') := by
  induction ids generalizing s with
  | nil =>
    cases h
    exact .inl rfl
  | cons id ids ih =>
    obtain ⟨mid, hvisited, hrest⟩ := visited_of_run hrun h
    cases hvisited with
    | absent | spared => exact ih hrest
    | destroyed _ hact hburied hreapply =>
      have hdestroyed := Act.destroy (.inl rfl) hact hburied
      obtain rfl | ⟨buried, hlater, hlast⟩ := ih hrest
      · exact .inr ⟨_, hdestroyed, hreapply⟩
      · exact .inr ⟨buried, (hdestroyed.trans (.reapply hreapply)).trans hlater, hlast⟩

theorem upkeep_of_settle (hrun : run.Goes) (h : (settle run).run s = .ok ((), s')) :
    ∃ buried mid, Act s buried ∧ reapply.run buried = .ok ((), mid) ∧
      s' = mid.map (·.checkVictory) := by
  obtain ⟨s₁, s₂, hreapply, hpass, rfl⟩ := stages_of_settle h
  obtain rfl | ⟨buried, hact, hlater⟩ := upkeep_of_settleAll hrun hpass
  · exact ⟨s, s₂, .refl s, hreapply, rfl⟩
  · exact ⟨buried, s₂, (Act.reapply hreapply).trans hact, hlater, rfl⟩

end Play

namespace MatchSetup

variable {s : MatchSetup} {m : Match}

theorem Reaches.ordered (hm : s.Reaches m) : m.Ordered s.Brings :=
  ⟨hm.reachable.numbered, hm.accounted, hm.reachable.every Piece.kept_own⟩

/-- Whenever everything has been brought up to date, whatever is enabled is an object's own or still
granted to it, and whatever is disabled comes from an ability that is gone. Nothing disabled is left
exactly if no disabled ability had granted an enabled one when the last ability had been visited,
and so it is where no grant is granted. Every command that is carried out ends up to date. -/
theorem Reaches.grants_governed (hm : s.Reaches m) :
    (∀ st st' : Stage, m.Underway st → Play.reapply.run st = .ok ((), st') →
      st'.game.Governed s.Brings ∧
      ∃ visited, (st.game.board.ids.forM Play.reapplyOf).run st = .ok ((), visited) ∧
        (st'.game.board.Enabled ↔ ¬ visited.game.board.Strands) ∧
        (st.game.board.Flat → st'.game.board.Enabled)) ∧
    ∀ (depth : Nat) (c : Command) (m' : Match) (trace : List Happening),
      m.submitTraced depth c = .ok (m', trace) → m'.Accepted →
      m'.Governed s.Brings ∧ ∃ st st' : Stage, m.Underway st ∧
        Play.reapply.run st = .ok ((), st') ∧ m'.board = st'.game.board := by
  refine ⟨fun st st' hst h => ?_, fun depth c m' trace h haccepted => ?_⟩
  · obtain ⟨hclears, haccounted, hvisited⟩ := (hst.ordered hm.ordered).reapplied h
    exact ⟨haccounted.governed hclears, hvisited⟩
  · cases Match.enacted h with
    | idle hnot => exact absurd haccepted hnot
    | @done st _ _ hcarries hsettle hend =>
      obtain ⟨begun, htold, -, hact⟩ := hcarries.acts
      obtain ⟨buried, mid, hsettling, hreapply, rfl⟩ :=
        Play.upkeep_of_settle (Play.goes_runner depth) hsettle
      have hst : m.Underway buried := .act (.begin htold) (hact.trans hsettling)
      obtain ⟨hclears, haccounted, -⟩ := (hst.ordered hm.ordered).reapplied hreapply
      obtain ⟨n, rfl⟩ := hend
      have hboard : (mid.game.checkVictory.withNotices n).board = mid.game.board :=
        Match.board_checkVictory mid.game
      have haccounted := haccounted.of_board hboard fun _ hm => hm.checkVictory.withNotices n
      exact ⟨haccounted.governed (hboard ▸ hclears), buried, mid, hst, hreapply, hboard⟩

/-! ### Two small matches -/

/-- Blue's event puts a robot next to blue's core, which gives cores beside it an ability of this
effect on themselves, and the robot may move at once. -/
def granting (effect : PassiveEffect) : MatchSetup :=
  solo [.spawnPiece (.generateCard .robot ⟨some 1, 1, some 1⟩ none)
      (.tilesMatching [.unoccupied, .adjacentTo (.piecesMatching (.only .core)
        [.controlledBy .selfPlayer])]) .selfPlayer,
    .moveAgain (.piecesInPlay (.only .robot)),
    .giving (.only .robot) (.piecesMatching (.only .core) [.adjacentTo .thisPiece])
      (.grant (.setAbility ⟨.thisPiece, effect, none⟩))]

/-- The robot moves away from the core. -/
def departing : Command := .movePiece .blue ⟨-3, 1, 2⟩ ⟨-2, 1, 1⟩

/-- The core may not activate as long as the robot is next to it, and not any longer. -/
theorem Reaches.grants_governed_departing :
    ∃ (m m' : Match) (trace : List Happening),
      (granting (.status .cannotActivate)).Reaches m ∧
      (∃ p ∈ m.board.pieces, ∃ a ∈ p.passives, a.source.isSome = true ∧ a.disabled = false) ∧
      m.submitTraced Match.maxDepth departing = .ok (m', trace) ∧ m'.Accepted ∧
      (∀ p ∈ m'.board.pieces, ∀ a ∈ p.passives, a.source = none) ∧
      m'.Governed (granting (.status .cannotActivate)).Brings ∧
      ∃ st st' : Stage, m.Underway st ∧ Play.reapply.run st = .ok ((), st') ∧
        m'.board = st'.game.board := by
  have hrun : ((granting (.status .cannotActivate)).start.holds fun m =>
      (m.submitTraced Match.maxDepth .playSolo).holds fun x =>
        (x.1.board.pieces.any fun p => p.passives.any fun a => a.source.isSome && !a.disabled) &&
        (x.1.submitTraced Match.maxDepth departing).holds fun y =>
          (y.1.refusal.isNone && y.1.pending.isNone) &&
          y.1.board.pieces.all fun p => p.passives.all fun a => a.source.isNone) = true := by
    decide +kernel
  obtain ⟨m, hstart, hrun⟩ := Outcome.exists_of_holds hrun
  obtain ⟨⟨m₁, played⟩, hplay, hrun⟩ := Outcome.exists_of_holds hrun
  obtain ⟨hgranted, hrun⟩ := Bool.and_eq_true_iff.1 hrun
  obtain ⟨⟨m', trace⟩, hmove, hend⟩ := Outcome.exists_of_holds hrun
  simp only [Bool.and_eq_true, Option.isNone_iff_eq_none, List.all_eq_true] at hend
  simp only [List.any_eq_true, Bool.and_eq_true, Bool.not_eq_true'] at hgranted
  obtain ⟨haccepted, hgone⟩ := hend
  have hm : (granting (.status .cannotActivate)).Reaches m₁ := .next (.start hstart) hplay
  exact ⟨m₁, m', trace, hm, hgranted, hmove, haccepted, hgone,
    hm.grants_governed.2 Match.maxDepth departing m' trace hmove haccepted⟩

/-- The core gives itself what the robot has it give. When the robot has moved away, the core is
left with an ability that is disabled and still in effect: the core had been visited before. -/
theorem left_granted_departing :
    ∃ (m m' : Match) (trace : List Happening),
      (granting (.grant (.setAbility ⟨.thisPiece, .status .cannotActivate, none⟩))).Reaches m ∧
      m.submitTraced Match.maxDepth departing = .ok (m', trace) ∧ m'.Accepted ∧
      ∃ p ∈ m'.board.pieces, ∃ a ∈ p.passives, a.disabled = true ∧
        ∃ x ∈ p.statuses, x.ability = a.id := by
  have hrun : ((granting (.grant (.setAbility
      ⟨.thisPiece, .status .cannotActivate, none⟩))).start.holds fun m =>
      (m.submitTraced Match.maxDepth .playSolo).holds fun x =>
        (x.1.submitTraced Match.maxDepth departing).holds fun y =>
          (y.1.refusal.isNone && y.1.pending.isNone) && y.1.board.pieces.any fun p =>
            p.passives.any fun a => a.disabled && p.statuses.any fun x => x.ability == a.id) =
      true := by
    decide +kernel
  obtain ⟨m, hstart, hrun⟩ := Outcome.exists_of_holds hrun
  obtain ⟨⟨m₁, played⟩, hplay, hrun⟩ := Outcome.exists_of_holds hrun
  obtain ⟨⟨m', trace⟩, hmove, hend⟩ := Outcome.exists_of_holds hrun
  simp only [Bool.and_eq_true, Option.isNone_iff_eq_none, List.any_eq_true, beq_iff_eq] at hend
  obtain ⟨haccepted, hleft⟩ := hend
  exact ⟨m₁, m', trace, .next (.start hstart) hplay, hmove, haccepted, hleft⟩

end MatchSetup
end HexDuel
