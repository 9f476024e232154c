import HexDuel.Proofs.Doom
import HexDuel.Proofs.Numbers

/-!
How a board is settled. The objects are visited once each, by ascending id, and after each
destruction everything is brought up to date. What is visited after the last destruction is found
in good health, and nothing is changed any more; what was visited before it is not looked at again.
-/

set_option autoImplicit false

namespace HexDuel

/-- It has health left. -/
def Piece.Thrives (p : Piece) : Prop := ∃ health, p.health = .ok health ∧ 0 < health

theorem Piece.thrives_of_not_doomed {p : Piece} (h : p.isDoomed = .ok false) : p.Thrives := by
  unfold isDoomed at h
  cases hhealth : p.health with
  | error f => rw [hhealth] at h; cases h
  | ok health =>
    rw [hhealth] at h
    have hdoomed : (decide (health ≤ 0) || p.condemned) = false := Except.ok.inj h
    obtain ⟨hleft, -⟩ := Bool.or_eq_false_iff.1 hdoomed
    exact ⟨health, hhealth, Int.not_le.1 (of_decide_eq_false hleft)⟩

/-! ### The order of objects -/

namespace Board

/-- The objects are kept by ascending id. -/
def Ascending (b : Board) : Prop := b.entries.Pairwise fun e e' => e.1 < e'.1

theorem Ascending.nodup {b : Board} (hb : b.Ascending) : b.ids.Nodup :=
  List.pairwise_map.2 (hb.imp Nat.ne_of_lt)

/-- Every object is found under its id. -/
theorem Ascending.get? {b : Board} (hb : b.Ascending) {e : PieceId × Piece} (he : e ∈ b.entries) :
    b.get? e.1 = some e.2 := get?_of_mem hb.nodup he

theorem ascending_enter {b : Board} (hb : b.Ascending) (p : Piece) : (b.enter p).Ascending := by
  unfold enter place?
  split
  · exact hb
  · exact pairwise_insertEntry hb

theorem Ascending.becomes {R : Piece → Piece → Prop} {b b' : Board} (hb : b.Ascending)
    (h : b.Becomes R b') : b'.Ascending := by
  obtain ⟨g, -, rfl⟩ := h
  exact List.pairwise_map.2 hb

theorem Ascending.modify {b : Board} (hb : b.Ascending) (id : PieceId) (f : Piece → Piece) :
    (b.modify id f).Ascending :=
  hb.becomes (.modify (R := fun _ _ => True) (fun _ => trivial) (fun _ => trivial) b id)

end Board

theorem Shift.ascending {s s' : Stage} (h : Shift s s') (hs : s.game.board.Ascending) :
    s'.game.board.Ascending := by
  cases h with
  | still h => exact hs.becomes h.board
  | place => exact Board.ascending_enter hs _
  | erase id => exact hs.filter _
  | move id => exact hs.modify id _
  | addPassive id => exact hs.modify id _
  | addTrigger id => exact hs.modify id _
  | consult _ hc => exact hc.board ▸ hs
  | leave | handOver => exact hs

theorem Act.ascending {s s' : Stage} (h : Act s s') (hs : s.game.board.Ascending) :
    s'.game.board.Ascending :=
  h.deeds.shifts.keeps (I := fun st => st.game.board.Ascending) (fun _ _ => Shift.ascending) hs

namespace Match

theorem lasting_ascending : Lasting fun m => m.board.Ascending where
  retold := by
    rintro m _ ⟨n, rfl⟩ hm
    exact hm
  acts _ _ h hs := h.ascending hs

theorem Reachable.ascending {m : Match} (hm : m.Reachable) : m.board.Ascending := by
  refine lasting_ascending.reachable (fun s m h => ?_) hm
  rw [MatchSetup.board_start h]
  unfold Board.Ascending MatchSetup.openingBoard
  simp

end Match

/-! ### One visit -/

namespace Play

/-- What a visit to an object comes to. -/
inductive Visited (id : PieceId) (s : Stage) : Stage → Prop where
  | absent : s.game.board.get? id = none → Visited id s s
  | spared {p : Piece} {doomed : Bool} : s.game.board.get? id = some p →
    p.isDoomed = .ok doomed → (doomed && !p.falling) = false → Visited id s s
  | destroyed {p : Piece} {fallen buried s' : Stage} : s.game.board.get? id = some p →
    Act (s.topple id p.card) fallen → Buried id fallen buried →
    reapply.run buried = .ok ((), s') → Visited id s s'

variable {run : Runner} {s s' : Stage}

theorem visited_of_run (hrun : run.Goes) {id : PieceId} {ids : List PieceId}
    (h : (settleAll run (id :: ids)).run s = .ok ((), s')) :
    ∃ mid, Visited id s mid ∧ (settleAll run ids).run mid = .ok ((), s') := by
  have hrest := of_run_piece? h
  split at hrest
  · rename_i hp
    exact ⟨s, .absent hp, hrest⟩
  · rename_i p hp
    obtain ⟨doomed, s₁, hlift, hthen⟩ := run_bind hrest
    obtain ⟨hdoomed, rfl⟩ := of_run_lift hlift
    dsimp only at hthen
    split at hthen
    · rename_i hfalls
      obtain ⟨_, mid, hdestroy, hrest⟩ := run_bind hthen
      refine ⟨mid, ?_, hrest⟩
      cases judged_of_run hrun hdestroy with
      | absent hnone => cases hnone.symm.trans hp
      | spared hq hdoomed' hspared =>
        obtain rfl := Option.some.inj (hp.symm.trans hq)
        obtain rfl := Except.ok.inj (hdoomed.symm.trans hdoomed')
        exact absurd hfalls (by simp [hspared])
      | destroyed hq _ _ hfallen hburied hreapply =>
        exact .destroyed hq hfallen.act hburied hreapply
    · rename_i hspared
      exact ⟨s₁, .spared hp hdoomed (by simpa using hspared), hthen⟩

theorem Visited.act {id : PieceId} (h : Visited id s s') : Act s s' := by
  cases h with
  | absent | spared => exact .refl s
  | destroyed _ hact hburied hreapply =>
    exact (Act.destroy (.inl rfl) hact hburied).trans (.reapply hreapply)

/-- What the trace says of a stretch of a resolution. -/
def Tells (s s' : Stage) (h : Happening) : Prop :=
  ∃ happened, s'.trace = happened ++ s.trace ∧ h ∈ happened

theorem Tells.after {mid : Stage} {h : Happening} (htells : Tells mid s' h)
    (hbefore : s.trace <:+ mid.trace) : Tells s s' h := by
  obtain ⟨happened, heq, hmem⟩ := htells
  obtain ⟨before, hmid⟩ := hbefore
  refine ⟨happened ++ before, ?_, List.mem_append_left _ hmem⟩
  rw [heq, ← hmid, List.append_assoc]

/-! ### The whole pass -/

/-- What a pass over these objects comes to: nothing, or there is a last one that it destroys. -/
inductive Swept (ids : List PieceId) (s : Stage) : Stage → Prop where
  | kept : (∀ id ∈ ids, ∀ p, s.game.board.get? id = some p → p.Thrives) → Swept ids s s
  | cleared {earlier later : List PieceId} {id : PieceId} {s' : Stage} :
    ids = earlier ++ id :: later → Tells s s' (.toppled id) → s'.game.board.get? id = none →
    (∀ k ∈ later, ∀ p, s'.game.board.get? k = some p → p.Thrives) → Swept ids s s'

/-- What was visited before does not matter once something else is destroyed. -/
theorem Swept.after_clearing {id : PieceId} {ids earlier later : List PieceId} {last : PieceId}
    {mid : Stage} (hids : ids = earlier ++ last :: later) (htells : Tells mid s' (.toppled last))
    (hgone : s'.game.board.get? last = none)
    (hthrives : ∀ k ∈ later, ∀ p, s'.game.board.get? k = some p → p.Thrives)
    (hbefore : s.trace <:+ mid.trace) : Swept (id :: ids) s s' := by
  have hcons : id :: ids = (id :: earlier) ++ last :: later := congrArg (id :: ·) hids
  exact .cleared hcons (htells.after hbefore) hgone hthrives

theorem Swept.after_sparing {id : PieceId} {ids : List PieceId}
    (hid : ∀ p, s.game.board.get? id = some p → p.Thrives) (h : Swept ids s s') :
    Swept (id :: ids) s s' := by
  cases h with
  | kept hthrives =>
    refine .kept fun k hk => ?_
    obtain rfl | hk := List.mem_cons.1 hk
    · exact hid
    · exact hthrives k hk
  | cleared hids htells hgone hthrives =>
    exact after_clearing hids htells hgone hthrives List.suffix_rfl

theorem Swept.of_destroyed {id : PieceId} {ids : List PieceId} {card : Card}
    {fallen buried : Stage} (hact : Act (s.topple id card) fallen)
    (hburied : Buried id fallen buried) (hreapply : reapply.run buried = .ok ((), s'))
    (hthrives : ∀ k ∈ ids, ∀ p, s'.game.board.get? k = some p → p.Thrives) :
    Swept (id :: ids) s s' := by
  have hfirst : id :: ids = [] ++ id :: ids := rfl
  refine .cleared hfirst ?_ ?_ hthrives
  · have hlater : (s.topple id card).trace <:+ s'.trace :=
      (hact.deeds.trans (hburied.deeds.trans (Act.reapply hreapply).deeds)).steps.trace_suffix
    obtain ⟨happened, heq⟩ := hlater
    refine ⟨happened ++ [.toppled id], ?_, by simp⟩
    rw [← heq, Stage.topple, List.append_assoc]
    rfl
  · have hupkeep := Piece.upkept_sameMarks.tended (goes_reapply _ _ _ hreapply)
    exact hupkeep.get?_eq_none hburied.spares.2

theorem swept_of_run (hrun : run.Goes) {ids : List PieceId} (hs : s.game.board.Spared)
    (h : (settleAll run ids).run s = .ok ((), s')) : Swept ids s s' := by
  induction ids generalizing s with
  | nil =>
    cases h
    exact .kept fun _ h => nomatch h
  | cons id ids ih =>
    obtain ⟨mid, hvisited, hrest⟩ := visited_of_run hrun h
    have hmid : mid.game.board.Spared := hvisited.act.spares.spared hs
    have hrest := ih hmid hrest
    cases hvisited with
    | absent hnone => exact hrest.after_sparing fun p hp => nomatch hnone.symm.trans hp
    | @spared p doomed hp hdoomed hspared =>
      refine hrest.after_sparing fun q hq => ?_
      obtain rfl := Option.some.inj (hp.symm.trans hq)
      -- It does not fall, and so it is not doomed either.
      have hfalling : p.falling = false := by
        simpa using fun hfalling => (hs id).2 ⟨p, hp, hfalling⟩
      have hnot : doomed = false := by simpa [hfalling] using hspared
      exact p.thrives_of_not_doomed (hnot ▸ hdoomed)
    | destroyed hp hact hburied hreapply =>
      have hall : Act s mid := (Visited.destroyed hp hact hburied hreapply).act
      cases hrest with
      | kept hthrives => exact .of_destroyed hact hburied hreapply hthrives
      | cleared hids htells hgone hthrives =>
        exact .after_clearing hids htells hgone hthrives hall.deeds.steps.trace_suffix

/-- Settling brings everything up to date, visits each object there is then, and looks for a
winner. -/
theorem stages_of_settle (h : (settle run).run s = .ok ((), s')) :
    ∃ s₁ s₂ : Stage, reapply.run s = .ok ((), s₁) ∧
      (settleAll run s₁.game.board.ids).run s₁ = .ok ((), s₂) ∧ s' = s₂.map (·.checkVictory) := by
  obtain ⟨_, s₁, hreapply, hrest⟩ := run_bind h
  have hrest : (do
      settleAll run s₁.game.board.ids
      change (·.checkVictory) : Play Unit).run s₁ = .ok ((), s') := hrest
  obtain ⟨_, s₂, hpass, hlast⟩ := run_bind hrest
  cases hlast
  exact ⟨s₁, s₂, hreapply, hpass, rfl⟩

/-- Who was visited after the last destruction is well, and who was visited before it has a smaller
id. All others have come since. -/
theorem settled_of_run (hrun : run.Goes) (hs : s.game.board.Spared)
    (hascending : s.game.board.Ascending) (hnumbered : s.game.Numbered)
    (h : (settle run).run s = .ok ((), s')) {e : PieceId × Piece} (he : e ∈ s'.game.board.entries) :
    e.2.Thrives ∨ ∃ id, Tells s s' (.toppled id) ∧ (e.1 < id ∨ s.game.lastId < e.1) := by
  obtain ⟨s₁, s₂, hreapply, hpass, rfl⟩ := stages_of_settle h
  have hbefore : Act s s₁ := .reapply hreapply
  have hpassed : Act s₁ s₂ := ((goes_settleAll hrun _).conduct hpass).act
  have hascending₁ : s₁.game.board.Ascending := hbefore.ascending hascending
  have hascending₂ : s₂.game.board.Ascending := hpassed.ascending hascending₁
  have he : e ∈ s₂.game.board.entries := (Match.board_checkVictory s₂.game) ▸ he
  have hget := hascending₂.get? he
  have hlastId := hbefore.deeds.steps.lastId_le
  cases swept_of_run hrun (hbefore.spares.spared hs) hpass with
  | kept hthrives => exact .inl (hthrives e.1 (List.mem_map_of_mem he) e.2 hget)
  | @cleared earlier later id _ hids htells hgone hthrives =>
    have htells : Tells s s₂ (.toppled id) := htells.after hbefore.deeds.steps.trace_suffix
    have hnumbered₁ := (hbefore.deeds.follows hnumbered).1
    obtain hold | hnew := (hpassed.deeds.follows hnumbered₁).2.ids e.1 (List.mem_map_of_mem he)
    · have hsorted : s₁.game.board.ids.Pairwise (· < ·) := List.pairwise_map.2 hascending₁
      rw [hids] at hold hsorted
      obtain hearlier | hrest := List.mem_append.1 hold
      · exact .inr ⟨id, htells,
          .inl ((List.pairwise_append.1 hsorted).2.2 _ hearlier id List.mem_cons_self)⟩
      · obtain heq | hlater := List.mem_cons.1 hrest
        · rw [heq, hgone] at hget
          cases hget
        · exact .inl (hthrives e.1 hlater e.2 hget)
    · exact .inr ⟨id, htells, .inr (Nat.lt_of_le_of_lt hlastId hnew)⟩

end Play

/-! ### Commands -/

namespace Match

variable {depth : Nat} {m m' : Match} {c : Command} {trace : List Happening}

/-- A command that is carried out leaves no object that is marked for destruction. An object without
health is left only if it stands before one that the settling destroys, or has come during the
settling: where the settling destroys nothing, every object thrives. -/
theorem Reachable.board_settled (hm : m.Reachable)
    (h : m.submitTraced depth c = .ok (m', trace)) (haccepted : m'.Accepted) :
    (∀ p ∈ m'.board.pieces, p.condemned = false ∧ p.falling = false) ∧
    ∃ st st' : Stage, m.Carries depth st ∧
      (Play.settle (Play.runner depth)).run st = .ok ((), st') ∧ st'.game.Retold m' ∧
      st'.trace = trace ∧
      ∀ p ∈ m'.board.pieces, p.Thrives ∨
        ∃ id, Play.Tells st st' (.toppled id) ∧ (p.id < id ∨ st.game.lastId < p.id) := by
  have hm' : m'.Reachable := hm.next h
  refine ⟨fun p hp => ?_, ?_⟩
  · obtain ⟨e, he, rfl⟩ := List.mem_map.1 hp
    have hget := hm'.ascending.get? he
    obtain ⟨hcondemns, hfells⟩ := hm'.spared e.1
    exact ⟨by simpa using fun hc => hcondemns ⟨e.2, hget, hc⟩,
      by simpa using fun hf => hfells ⟨e.2, hget, hf⟩⟩
  · cases enacted h with
    | idle hnot => exact absurd haccepted hnot
    | @done st st' _ hcarries hsettle hend htrace =>
      obtain ⟨s, htold, -, hact⟩ := hcarries.acts
      have hbegin : ∀ {I : Match → Prop}, Lasting I → I m → I st.game :=
        fun hI hIm => hI.acts s st hact (hI.retold m s.game htold hIm)
      refine ⟨st, st', hcarries, hsettle, hend, htrace, fun p hp => ?_⟩
      obtain ⟨e, he, rfl⟩ := List.mem_map.1 hp
      rw [hm'.board_sound.keyed e he]
      have he : e ∈ st'.game.board.entries := by
        obtain ⟨n, rfl⟩ := hend
        exact he
      exact Play.settled_of_run (Play.goes_runner depth) (hbegin lasting_spared hm.spared)
        (hbegin lasting_ascending hm.ascending) (hbegin lasting_numbered hm.numbered) hsettle he

/-! ### Two small matches -/

/-- Blue's card makes a robot and a structure without health, of which the settling leaves none. -/
theorem Reachable.board_settled_solo :
    ∃ (m m' : Match) (trace : List Happening), m.Reachable ∧
      (MatchSetup.solo [.making .robot ⟨some 1, 0, some 1⟩, .making .building (.still 0)]).start =
        .ok m ∧
      m.submitTraced maxDepth .playSolo = .ok (m', trace) ∧ m'.Accepted ∧
      (∀ p ∈ m'.board.pieces, p.condemned = false ∧ p.falling = false) ∧
      ∃ st st' : Stage, m.Carries maxDepth st ∧
        (Play.settle (Play.runner maxDepth)).run st = .ok ((), st') ∧ st'.game.Retold m' ∧
        st'.trace = trace ∧
        ∀ p ∈ m'.board.pieces, p.Thrives ∨
          ∃ id, Play.Tells st st' (.toppled id) ∧ (p.id < id ∨ st.game.lastId < p.id) := by
  have hrun : ((MatchSetup.solo
      [.making .robot ⟨some 1, 0, some 1⟩, .making .building (.still 0)]).start.holds fun m =>
      (m.submitTraced maxDepth .playSolo).holds fun x =>
        x.1.refusal.isNone && x.1.pending.isNone) = true := by
    decide +kernel
  obtain ⟨m, hstart, hrun⟩ := Outcome.exists_of_holds hrun
  obtain ⟨⟨m', trace⟩, hplay, hend⟩ := Outcome.exists_of_holds hrun
  simp only [Bool.and_eq_true, Option.isNone_iff_eq_none] at hend
  have hm : m.Reachable := .start hstart
  exact ⟨m, m', trace, hm, hstart, hplay, hend, hm.board_settled hplay hend⟩

/-- The structure falls in the settling, and with it what had given the robot its health. The robot
had been visited before. -/
theorem out_of_health_solo :
    ∃ (m m' : Match) (trace : List Happening), m.Reachable ∧
      (MatchSetup.solo [.making .robot ⟨some 1, 0, some 1⟩, .making .building (.still 0),
        .giving (.only .building) (.piecesInPlay (.only .robot))
          (.adjust .health (.add (.const 1)))]).start =
        .ok m ∧
      m.submitTraced maxDepth .playSolo = .ok (m', trace) ∧ m'.Accepted ∧
      ∃ p ∈ m'.board.pieces, ∃ health, p.health = .ok health ∧ health ≤ 0 := by
  have hrun : ((MatchSetup.solo [.making .robot ⟨some 1, 0, some 1⟩, .making .building (.still 0),
      .giving (.only .building) (.piecesInPlay (.only .robot))
        (.adjust .health (.add (.const 1)))]).start.holds
      fun m => (m.submitTraced maxDepth .playSolo).holds fun x =>
        x.1.refusal.isNone && x.1.pending.isNone &&
          x.1.board.pieces.any fun p => p.health.holds fun health => health ≤ 0) = true := by
    decide +kernel
  obtain ⟨m, hstart, hrun⟩ := Outcome.exists_of_holds hrun
  obtain ⟨⟨m', trace⟩, hplay, hend⟩ := Outcome.exists_of_holds hrun
  simp only [Bool.and_eq_true, Option.isNone_iff_eq_none, List.any_eq_true] at hend
  obtain ⟨haccepted, p, hp, hout⟩ := hend
  obtain ⟨health, hhealth, hle⟩ := Outcome.exists_of_holds hout
  exact ⟨m, m', trace, .start hstart, hstart, hplay, haccepted, p, hp, health, hhealth,
    of_decide_eq_true hle⟩

end Match
end HexDuel
