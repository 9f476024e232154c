import HexDuel.Proofs.Lasting
import HexDuel.Proofs.Shifts
import Mathlib.Data.List.Flatten
import Mathlib.Data.List.Perm.Subperm

/-!
The numbers of objects and abilities. One counter serves them all, and it only goes up: no two of
them have the same number, and one that is gone is not given out again, whatever was handed out in
attempts that were thrown away.
-/

set_option autoImplicit false

namespace HexDuel

/-! ### Numbers on the board -/

/-- The abilities that are installed on the object, disabled ones included. -/
def Piece.abilityIds (p : Piece) : List AbilityId := p.passives.map (·.id) ++ p.triggers.map (·.id)

def Board.abilityIds (b : Board) : List AbilityId := b.pieces.flatMap (·.abilityIds)

theorem Piece.Remains.abilityIds {p q : Piece} (h : p.Remains q) :
    q.abilityIds.Sublist p.abilityIds := h.passives.append h.triggers

theorem Piece.abilityIds_addPassive (a : Passive) (p : Piece) :
    (p.addPassive a).abilityIds.Perm (a.id :: p.abilityIds) := by
  simp only [addPassive, abilityIds, List.map_append, List.map_cons, List.map_nil,
    List.append_assoc, List.singleton_append]
  exact List.perm_middle

theorem Piece.abilityIds_addTrigger (t : Trigger) (p : Piece) :
    (p.addTrigger t).abilityIds.Perm (t.id :: p.abilityIds) := by
  simp only [addTrigger, abilityIds, List.map_append, List.map_cons, List.map_nil,
    ← List.append_assoc]
  exact List.perm_append_singleton _ _

namespace Board

theorem abilityIds_cons (e : PieceId × Piece) (es : List (PieceId × Piece)) :
    (⟨e :: es⟩ : Board).abilityIds = e.2.abilityIds ++ (⟨es⟩ : Board).abilityIds := rfl

theorem abilityIds_map {g : PieceId × Piece → Piece}
    (hg : ∀ e : PieceId × Piece, (g e).abilityIds.Sublist e.2.abilityIds) (b : Board) :
    (⟨b.entries.map fun e => (e.1, g e)⟩ : Board).abilityIds.Sublist b.abilityIds := by
  simp only [abilityIds, pieces, List.map_map, List.flatMap_map]
  exact List.Sublist.flatMap_right _ fun e _ => hg e

theorem abilityIds_erase (b : Board) (id : PieceId) :
    (b.erase id).abilityIds.Sublist b.abilityIds :=
  (List.filter_sublist.map Prod.snd).flatMap _

theorem abilityIds_modify_sublist (b : Board) (id : PieceId) {f : Piece → Piece}
    (hf : ∀ p, (f p).abilityIds.Sublist p.abilityIds) :
    (b.modify id f).abilityIds.Sublist b.abilityIds := by
  rw [modify_eq_map]
  refine abilityIds_map (fun e => ?_) b
  split
  · exact hf e.2
  · exact .refl _

theorem modify_of_not_mem {id : PieceId} {f : Piece → Piece} {es : List (PieceId × Piece)}
    (h : ∀ e ∈ es, e.1 ≠ id) : (⟨es⟩ : Board).modify id f = ⟨es⟩ := by
  simp only [modify, mk.injEq]
  refine (List.map_congr_left fun e he => ?_).trans (List.map_id es)
  have hne : (e.1 == id) = false := by simpa using h e he
  simp [hne]

/-- An ability more, on the one object of that id. -/
theorem abilityIds_modify {b : Board} (id : PieceId) {f : Piece → Piece} {n : Nat}
    (hf : ∀ p, (f p).abilityIds.Perm (n :: p.abilityIds)) (hids : b.ids.Nodup) :
    (b.modify id f).abilityIds.Subperm (n :: b.abilityIds) := by
  obtain ⟨es⟩ := b
  induction es with
  | nil => exact (List.nil_sublist _).subperm
  | cons e es ih =>
    have hids : e.1 ∉ es.map (·.1) ∧ (es.map (·.1)).Nodup := List.nodup_cons.1 hids
    have hcons : (⟨e :: es⟩ : Board).modify id f =
        ⟨(if e.1 == id then (e.1, f e.2) else e) :: ((⟨es⟩ : Board).modify id f).entries⟩ := rfl
    rw [hcons, abilityIds_cons, abilityIds_cons]
    split
    · rename_i hid
      have hothers : ∀ e' ∈ es, e'.1 ≠ id := by
        intro e' he' heq
        exact hids.1 (List.mem_map.2 ⟨e', he', heq.trans (eq_of_beq hid).symm⟩)
      rw [modify_of_not_mem hothers]
      exact ((hf e.2).append_right _).subperm
    · exact ((List.subperm_append_left _).2 (ih hids.2)).trans List.perm_middle.subperm

end Board

/-! ### What is handed out -/

namespace Match

/-- The numbers that objects and abilities bear. -/
def numbers (m : Match) : List Nat := m.board.ids ++ m.board.abilityIds

/-- No two bear the same number, and none bears one that is still to be handed out. -/
structure Numbered (m : Match) : Prop where
  nodup : m.numbers.Nodup
  le : ∀ n ∈ m.numbers, n ≤ m.lastId

/-- Whatever has a number that it did not have has one that was handed out since. -/
structure Follows (m m' : Match) : Prop where
  lastId : m.lastId ≤ m'.lastId
  ids : ∀ n ∈ m'.board.ids, n ∈ m.board.ids ∨ m.lastId < n
  abilityIds : ∀ n ∈ m'.board.abilityIds, n ∈ m.board.abilityIds ∨ m.lastId < n

/-- At most one object or ability is new, under the next number. -/
inductive Renews (m m' : Match) : Prop where
  | old : m.lastId ≤ m'.lastId → m'.board.ids.Subperm m.board.ids →
    m'.board.abilityIds.Subperm m.board.abilityIds → m.Renews m'
  | piece : m'.lastId = m.lastId + 1 → m'.board.ids.Subperm ((m.lastId + 1) :: m.board.ids) →
    m'.board.abilityIds.Subperm m.board.abilityIds → m.Renews m'
  | ability : m'.lastId = m.lastId + 1 → m'.board.ids.Subperm m.board.ids →
    m'.board.abilityIds.Subperm ((m.lastId + 1) :: m.board.abilityIds) → m.Renews m'

variable {m m' m'' : Match}

theorem Follows.refl (m : Match) : m.Follows m := ⟨Nat.le_refl _, fun _ => .inl, fun _ => .inl⟩

theorem Follows.trans (h : m.Follows m') (h' : m'.Follows m'') : m.Follows m'' where
  lastId := Nat.le_trans h.lastId h'.lastId
  ids n hn := (h'.ids n hn).elim (h.ids n) fun hlt => .inr (Nat.lt_of_le_of_lt h.lastId hlt)
  abilityIds n hn := (h'.abilityIds n hn).elim (h.abilityIds n) fun hlt =>
    .inr (Nat.lt_of_le_of_lt h.lastId hlt)

/-- A match with the same board that has handed out nothing either. -/
theorem Follows.of_same (hboard : m'.board = m.board) (hlast : m'.lastId = m.lastId) :
    m.Follows m' where
  lastId := Nat.le_of_eq hlast.symm
  ids _ hn := .inl (hboard ▸ hn)
  abilityIds _ hn := .inl (hboard ▸ hn)

theorem Renews.follows (h : m.Renews m') : m.Follows m' := by
  have hnext : ∀ {n : Nat} {xs ys : List Nat}, xs.Subperm ((m.lastId + 1) :: ys) → n ∈ xs →
      n ∈ ys ∨ m.lastId < n := by
    intro n xs ys hxs hn
    obtain rfl | hold := List.mem_cons.1 (hxs.subset hn)
    · exact .inr (Nat.lt_succ_self _)
    · exact .inl hold
  cases h with
  | old hle hids habilities =>
    exact ⟨hle, fun n hn => .inl (hids.subset hn), fun n hn => .inl (habilities.subset hn)⟩
  | piece hle hids habilities =>
    exact ⟨by omega, fun n hn => hnext hids hn, fun n hn => .inl (habilities.subset hn)⟩
  | ability hle hids habilities =>
    exact ⟨by omega, fun n hn => .inl (hids.subset hn), fun n hn => hnext habilities hn⟩

theorem Numbered.of_subperm (hm : m.Numbered) (hle : m.lastId ≤ m'.lastId)
    (h : m'.numbers.Subperm m.numbers) : m'.Numbered := by
  obtain ⟨xs, hperm, hsub⟩ := h
  refine ⟨hperm.nodup_iff.1 (hsub.nodup hm.nodup), fun n hn => ?_⟩
  exact Nat.le_trans (hm.le n (hsub.subset (hperm.mem_iff.2 hn))) hle

theorem Numbered.of_same (hm : m.Numbered) (hboard : m'.board = m.board)
    (hlast : m'.lastId = m.lastId) : m'.Numbered :=
  hm.of_subperm (Nat.le_of_eq hlast.symm) (by unfold numbers; rw [hboard])

theorem Numbered.of_next (hm : m.Numbered) (hle : m'.lastId = m.lastId + 1)
    (h : m'.numbers.Subperm ((m.lastId + 1) :: m.numbers)) : m'.Numbered := by
  have hnew : m.lastId + 1 ∉ m.numbers := fun hmem => Nat.not_succ_le_self _ (hm.le _ hmem)
  obtain ⟨xs, hperm, hsub⟩ := h
  refine ⟨hperm.nodup_iff.1 (hsub.nodup (List.nodup_cons.2 ⟨hnew, hm.nodup⟩)), fun n hn => ?_⟩
  rw [hle]
  obtain rfl | hold := List.mem_cons.1 (hsub.subset (hperm.mem_iff.2 hn))
  · exact Nat.le_refl _
  · exact Nat.le_trans (hm.le n hold) (Nat.le_succ _)

theorem Renews.numbered (h : m.Renews m') (hm : m.Numbered) : m'.Numbered := by
  cases h with
  | old hle hids habilities => exact hm.of_subperm hle (hids.append habilities)
  | piece hle hids habilities => exact hm.of_next hle (hids.append habilities)
  | ability hle hids habilities =>
    exact hm.of_next hle ((hids.append habilities).trans List.perm_middle.subperm)

end Match

variable {s s' : Stage}

theorem Board.Remains.numbers {b b' : Board} (h : b.Remains b') :
    b'.ids = b.ids ∧ b'.abilityIds.Sublist b.abilityIds := by
  obtain ⟨g, hg, rfl⟩ := h
  exact ⟨by simp [ids, Function.comp_def], abilityIds_map (fun e => (hg e).abilityIds) b⟩

/-- An object that comes is new, and so is an ability that an object is given. -/
theorem Shift.renews (h : Shift s s') (hs : s.game.Numbered) : s.game.Renews s'.game := by
  have hids : s.game.board.ids.Nodup := (List.nodup_append.1 hs.nodup).1
  cases h with
  | still h =>
    obtain ⟨hkept, habilities⟩ := h.board.numbers
    exact .old h.lastId (hkept ▸ .refl _) habilities.subperm
  | @place card hex owner justPlayed htakes =>
    have hperm : (s.place card hex owner justPlayed).game.board.entries.Perm
        ((s.game.lastId + 1, s.newPiece card hex owner justPlayed) :: s.game.board.entries) :=
      Board.perm_enter htakes.free htakes.unused
    exact .piece rfl (hperm.map Prod.fst).subperm
      ((hperm.map Prod.snd).flatMap_right Piece.abilityIds).subperm
  | erase id =>
    exact .old (Nat.le_refl _) (List.filter_sublist.map Prod.fst).subperm
      (Board.abilityIds_erase _ _).subperm
  | @move id hex f hf =>
    have habilities : ∀ p, ((f p).moveTo hex).abilityIds.Sublist p.abilityIds :=
      fun p => (hf p).abilityIds
    exact .old (Nat.le_refl _) (List.Perm.of_eq (Board.ids_modify _ _ _)).subperm
      (Board.abilityIds_modify_sublist s.game.board id habilities).subperm
  | @addPassive id a ha =>
    refine .ability rfl (List.Perm.of_eq (Board.ids_modify _ _ _)).subperm ?_
    exact ha ▸ Board.abilityIds_modify id (Piece.abilityIds_addPassive a) hids
  | @addTrigger id t ht =>
    refine .ability rfl (List.Perm.of_eq (Board.ids_modify _ _ _)).subperm ?_
    exact ht ▸ Board.abilityIds_modify id (Piece.abilityIds_addTrigger t) hids
  | consult _ hc => cases hc <;> exact .old (Nat.le_refl _) (.refl _) (.refl _)
  | leave | handOver => exact .old (Nat.le_refl _) (.refl _) (.refl _)

theorem Deeds.follows (h : Deeds s s') (hs : s.game.Numbered) :
    s'.game.Numbered ∧ s.game.Follows s'.game := by
  refine h.shifts.keeps (I := fun st => st.game.Numbered ∧ s.game.Follows st.game)
    (fun st st' hshift hst => ?_) ⟨hs, .refl _⟩
  have hrenews := hshift.renews hst.1
  exact ⟨hrenews.numbered hst.1, hst.2.trans hrenews.follows⟩

/-! ### Commands -/

namespace Match

variable {depth : Nat} {m m' : Match}

/-- Of an attempt that is thrown away only what is told is left, and so it hands nothing out. -/
theorem lasting_numbered : Lasting Numbered where
  retold := by
    rintro m _ ⟨n, rfl⟩ hm
    exact hm.of_same rfl rfl
  acts _ _ h hs := (h.deeds.follows hs).1

theorem lasting_follows (m : Match) : Lasting fun x => x.Numbered ∧ m.Follows x where
  retold := by
    rintro x _ ⟨n, rfl⟩ ⟨hx, hfollows⟩
    exact ⟨hx.of_same rfl rfl, hfollows.trans (.of_same rfl rfl)⟩
  acts _ _ h hs := ⟨(h.deeds.follows hs.1).1, hs.2.trans (h.deeds.follows hs.1).2⟩

theorem lastId_start {s : MatchSetup} (h : s.start = .ok m) : m.lastId = 2 := by
  rw [MatchSetup.start_eq h]
  exact (lastId_drawTimes .orange _ _).trans (lastId_drawTimes .blue _ s.tableOf)

theorem numbered_start {s : MatchSetup} (h : s.start = .ok m) : m.Numbered := by
  have hnumbers : m.numbers = [1, 2] := by
    unfold numbers
    rw [MatchSetup.board_start h]
    rfl
  refine ⟨by rw [hnumbers]; decide, ?_⟩
  rw [hnumbers, lastId_start h]
  decide

theorem Reachable.numbered (hm : m.Reachable) : m.Numbered :=
  lasting_numbered.reachable (fun _ _ => numbered_start) hm

theorem follows_of_course (hm : m.Numbered) {cs : List Command}
    (h : m.course depth cs = .ok m') : m.Follows m' :=
  ((lasting_follows m).course h ⟨hm, .refl m⟩).2

/-- No two objects and abilities on the board bear the same number, and none bears a number above
the last one that was handed out, which never goes back. Of the numbers that have once been borne,
one that no object bears any more is not borne by an object again, and the same for abilities. -/
theorem Reachable.numbers_fresh (hm : m.Reachable) :
    (m.board.ids ++ m.board.abilityIds).Nodup ∧
    (∀ n ∈ m.board.ids ++ m.board.abilityIds, n ≤ m.lastId) ∧
    (∀ (depth : Nat) (c : Command) (m' : Match) (trace : List Happening),
      m.submitTraced depth c = .ok (m', trace) → m.lastId ≤ m'.lastId) ∧
    ∀ (depth : Nat) (cs later : List Command) (m₁ m₂ : Match),
      m.course depth cs = .ok m₁ → m₁.course depth later = .ok m₂ →
      ∀ n ∈ m.board.ids ++ m.board.abilityIds,
        (n ∉ m₁.board.ids → n ∉ m₂.board.ids) ∧
          (n ∉ m₁.board.abilityIds → n ∉ m₂.board.abilityIds) := by
  have hnumbered := hm.numbered
  refine ⟨hnumbered.nodup, hnumbered.le, ?_, ?_⟩
  · intro depth c m' trace h
    exact (follows_of_course hnumbered (course_one h)).lastId
  · intro depth cs later m₁ m₂ hfirst hlater n hn
    have hfollows := follows_of_course (hm.course hfirst).numbered hlater
    have hle : n ≤ m₁.lastId :=
      Nat.le_trans (hnumbered.le n hn) (follows_of_course hnumbered hfirst).lastId
    refine ⟨fun hgone hback => ?_, fun hgone hback => ?_⟩
    · obtain hthere | hlt := hfollows.ids n hback
      · exact hgone hthere
      · exact Nat.not_lt.2 hle hlt
    · obtain hthere | hlt := hfollows.abilityIds n hback
      · exact hgone hthere
      · exact Nat.not_lt.2 hle hlt

/-- Blue's card destroys both cores, and their numbers are gone for good. -/
theorem Reachable.numbers_fresh_solo :
    ∃ m m₁ : Match, Reachable m ∧ m.course maxDepth [.playSolo] = .ok m₁ ∧
      (m.board.ids ++ m.board.abilityIds).Nodup ∧
      (∀ n ∈ m.board.ids ++ m.board.abilityIds, n ≤ m.lastId) ∧ m.lastId ≤ m₁.lastId ∧
      1 ∈ m.board.ids ∧ 1 ∉ m₁.board.ids ∧
      ∀ (later : List Command) (m₂ : Match), m₁.course maxDepth later = .ok m₂ →
        1 ∉ m₂.board.ids := by
  have hrun : ((MatchSetup.solo [.destroy (.piecesInPlay .any)]).start.holds fun m =>
      m.board.ids.contains 1 && (m.submitTraced maxDepth .playSolo).holds fun x =>
        x.1.board.ids.isEmpty) = true := by
    decide +kernel
  obtain ⟨m, hstart, hrun⟩ := Outcome.exists_of_holds hrun
  obtain ⟨hfirst, hrun⟩ := Bool.and_eq_true_iff.1 hrun
  obtain ⟨⟨m₁, trace⟩, hplay, hempty⟩ := Outcome.exists_of_holds hrun
  have hthere : 1 ∈ m.board.ids := by simpa using hfirst
  have hgone : 1 ∉ m₁.board.ids := by
    rw [List.isEmpty_iff.1 hempty]
    exact List.not_mem_nil
  have hcourse := course_one hplay
  have hm : Reachable m := .start hstart
  obtain ⟨hnodup, hle, hlast, hback⟩ := hm.numbers_fresh
  exact ⟨m, m₁, hm, hcourse, hnodup, hle, hlast _ _ _ _ hplay, hthere, hgone,
    fun later m₂ hlater =>
      (hback _ _ later m₁ m₂ hcourse hlater 1 (List.mem_append_left _ hthere)).1 hgone⟩

end Match
end HexDuel
