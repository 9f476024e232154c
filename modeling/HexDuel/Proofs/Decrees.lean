import HexDuel.Proofs.Sheets

/-!
What a blind passive ability decrees: what its targets stand for, and what it enters where they
stand. When it is brought up to date, all its entries go, and those of its decree come last.
-/

set_option autoImplicit false

namespace HexDuel

structure Decree where
  ability : AbilityId
  targets : Collection
  bearers : List Bearer
  text : Sheet

/-- What it has entered in one place. -/
def Decree.on (d : Decree) (b : Bearer) : Sheet := if b ∈ d.bearers then d.text else .empty

theorem Decree.abilities_on {d : Decree} {P : AbilityId → Prop}
    (h : ∀ id ∈ d.text.abilities, P id) (b : Bearer) : ∀ id ∈ (d.on b).abilities, P id := by
  unfold on
  split
  · exact h
  · exact nofun

namespace Resolving

/-- Where an ability that is applied to these targets has entries to make, and which. -/
def wording (a : Passive) (targets : Collection) : Resolving (List Bearer × Sheet) :=
  match a.effect with
  | .adjust scope modifier => do
    let adjustment ← resolveModifier modifier
    match targets with
    | .pieces ids =>
      return (ids.map .piece, ⟨scope.attributes.map (⟨a.id, some ·, adjustment⟩), [], []⟩)
    | .cards cards =>
      return (if scope = .cost then cards.map (.card ·.id) else [], .charge a.id adjustment)
    | other => throw (.mismatch .piecesOrCards other.kind)
  | .status phrase => do
    let kind ← statusKind phrase
    let ids ← targets.piecesIn (← game)
    return (ids.map .piece, ⟨[], [⟨a.id, kind⟩], []⟩)
  | .grant _ => return ([], .empty)
  | .activated text actions => do
    let ids ← targets.piecesIn (← game)
    return (ids.map .piece, ⟨[], [], [⟨a.id, text, actions⟩]⟩)

def decree (a : Passive) : Resolving Decree := do
  let targets ← resolve a.targets
  let (bearers, text) ← wording a targets
  return ⟨a.id, targets, bearers, text⟩

end Resolving

/-- Card copies among the targets are as they come back to a hand. -/
def Decree.reset (d : Decree) : Decree := { d with targets := d.targets.reset }

/-- What the ability of that object decrees as the match stands. -/
def Match.decree (m : Match) (owner : PieceId) (a : Passive) : Outcome Decree :=
  (((Resolving.decree a).run { Context.forPiece m owner with source := some a.id }).run
    ⟨m, []⟩).map (·.1.1)

/-- What all abilities decree, object by object on the board and in the order in which each object
has come to them. -/
def Match.decrees (m : Match) : Outcome (List Decree) :=
  (m.board.entries.mapM fun e : PieceId × Piece =>
    e.2.passives.mapM (m.decree e.1)).map List.flatten

/-! ### Nothing written -/

namespace Resolving
variable {a : Passive}

theorem mirrors_wording (ha : a.effect.blind = true) (targets : Collection) :
    Mirrors Anything id (wording a targets) (wording a targets.reset) := by
  obtain ⟨ability, source, phrase, effect, duration, disabled, applied⟩ := a
  cases effect with
  | adjust scope modifier =>
    refine (mirrors_resolveModifier ha).next fun adjustment _ => ?_
    cases targets with
    | pieces ids => exact .pure trivial rfl
    | cards cards =>
      refine .pure trivial ?_
      rw [List.map_map]
      rfl
    | players | hexes => exact .fail _
  | status phrase =>
    exact (mirrors_statusKind ha).next fun kind _ => .look fun m =>
      (Mirrors.same (targets.piecesIn_reset m)).next fun ids _ => .pure trivial rfl
  | grant sentence => cases ha
  | activated text actions =>
    exact .look fun m => (Mirrors.same (targets.piecesIn_reset m)).next fun ids _ =>
      .pure trivial rfl

theorem mirrors_decree (ha : a.blind = true) :
    Mirrors Anything Decree.reset (decree a) (decree a) := by
  unfold Passive.blind at ha
  simp only [Bool.and_eq_true] at ha
  exact (mirrors_resolve a.targets ha.1.2).next fun targets _ =>
    (mirrors_wording ha.2 targets).next fun _ _ => .pure trivial rfl

end Resolving

/-- Values that are found alike one by one are found alike in order. -/
theorem Outcome.mapM_map {α α' β β' : Type} {f : α → Outcome β} {f' : α' → Outcome β'} {g : α → α'}
    {r : β → β'} {as : List α} (h : ∀ a ∈ as, f' (g a) = (f a).map r) :
    (as.map g).mapM f' = (as.mapM f).map (·.map r) := by
  induction as with
  | nil => rfl
  | cons a as ih =>
    rw [List.map_cons, List.mapM_cons, List.mapM_cons, h a List.mem_cons_self,
      ih fun a' ha' => h a' (List.mem_cons_of_mem _ ha')]
    cases f a with
    | error e => rfl
    | ok b => cases as.mapM f <;> rfl

namespace Match
variable {m : Match}

/-- A blind ability decrees the same, whatever passive abilities have written. -/
theorem decree_unwritten {a : Passive} (ha : a.blind = true) (owner : PieceId) :
    m.unwritten.decree owner a = (m.decree owner a).map (·.reset) := by
  have hrun := Resolving.mirrors_decree ha { Context.forPiece m owner with source := some a.id }
    ⟨m, []⟩ (Context.alone_forPiece m owner (some a.id))
  unfold decree
  rw [Context.forPiece_unwritten]
  refine hrun.map_eq fun u v ⟨_, _, hv⟩ => ?_
  rw [hv]

theorem decrees_unwritten (hm : m.blind = true) :
    m.unwritten.decrees = m.decrees.map (·.map (·.reset)) := by
  have hpieces : ∀ e ∈ m.board.entries, e.2.unwritten.passives.mapM (m.unwritten.decree e.1) =
      (e.2.passives.mapM (m.decree e.1)).map (·.map (·.reset)) := by
    intro e he
    have hall := List.all_eq_true.1 hm e.2 (List.mem_map_of_mem he)
    simp only [Piece.blind, Bool.and_eq_true, List.all_eq_true] at hall
    exact Outcome.mapM_map (g := fun a : Passive => a.setApplied none) fun a ha =>
      decree_unwritten (hall.1 a ha) e.1
  have hboard : (m.board.entries.map fun e => (e.1, e.2.unwritten)).mapM
      (fun e : PieceId × Piece => e.2.passives.mapM (m.unwritten.decree e.1)) =
        (m.board.entries.mapM fun e : PieceId × Piece => e.2.passives.mapM (m.decree e.1)).map
          (·.map (·.map (·.reset))) := Outcome.mapM_map hpieces
  refine (congrArg (Except.map List.flatten) hboard).trans ?_
  unfold decrees
  cases m.board.entries.mapM fun e : PieceId × Piece => e.2.passives.mapM (m.decree e.1) with
  | error f => rfl
  | ok dss => exact congrArg Except.ok List.map_flatten.symm

end Match

/-! ### Applications -/

namespace Resolving
variable {a : Passive} {ctx : Context} {s : Stage}

/-- An application makes the entries that are worded in the match without what passive abilities
have written. -/
def Enters (a : Passive) (ctx : Context) (s : Stage) (u : (Unit × Context) × Stage)
    (v : ((List Bearer × Sheet) × Context) × Stage) : Prop :=
  ∃ bearers text, v = (((bearers, text), ctx), s.unwritten) ∧ (∀ id ∈ text.abilities, id = a.id) ∧
    .double ∉ bearers ∧ u.2.trace = s.trace ∧
    Match.Changes (fun b x => if b ∈ bearers then x.enter a.id text else x) s.game u.2.game

theorem agree_onEachPiece {f : Piece → Piece} {text : Sheet}
    (hown : ∀ id ∈ text.abilities, id = a.id)
    (hsame : ∀ p, (f p).passives = p.passives ∧ (f p).unwritten = p.unwritten)
    (hsheet : ∀ p, (f p).sheet = p.sheet.enter a.id text) (targets : Collection)
    (hctx : ctx.Alone) : Outcome.Agree (Enters a ctx s) (((onEachPiece targets f).run ctx).run s)
      (((do
        let ids ← targets.reset.piecesIn (← game)
        return (ids.map .piece, text) : Resolving (List Bearer × Sheet)).run ctx).run
          s.unwritten) := by
  refine (Mirrors.same (targets.piecesIn_reset s.game)).agree
    (k := fun ids => change fun m => ids.foldl (fun m id => m.changePiece id f) m)
    (l := fun ids => pure (ids.map Bearer.piece, text)) hctx (s := s) fun ids _ => ?_
  refine .ok ⟨_, _, rfl, hown, by simp, rfl, ?_⟩
  exact .foldl (fun x => Sheet.enter_enter hown)
    (Match.changes_changePiece (fun p => (hsame p).1) (fun p => (hsame p).2) hsheet) ids s.game

theorem agree_applyPassive (ha : a.effect.blind = true) (targets : Collection) (hctx : ctx.Alone) :
    Outcome.Agree (Enters a ctx s) (((applyPassive a targets).run ctx).run s)
      (((wording a targets.reset).run ctx).run s.unwritten) := by
  obtain ⟨id, source, phrase, effect, duration, disabled, applied⟩ := a
  cases effect with
  | adjust scope modifier =>
    refine (mirrors_resolveModifier ha).agree hctx fun adjustment _ => ?_
    cases targets with
    | pieces ids =>
      refine agree_onEachPiece ?_ (fun p => p.adjust_same id scope adjustment)
        (fun p => p.sheet_adjust id scope adjustment) (.pieces ids) hctx
      simp [Sheet.abilities]
    | cards cards =>
      have hown : ∀ i ∈ (Sheet.charge id adjustment).abilities, i = id := by
        simp [Sheet.charge, Sheet.abilities]
      cases scope with
      | cost =>
        refine .ok ⟨_, _, rfl, hown, by simp, rfl, ?_⟩
        rw [List.map_map]
        exact .foldl (fun x => Sheet.enter_enter hown)
          (fun m card => m.changes_adjustCostOf id adjustment card.id) cards s.game
      | _ =>
        have hsame : Match.Changes (fun b x => if b ∈ ([] : List Bearer) then
            x.enter id (.charge id adjustment) else x) s.game s.game :=
          (Match.Changes.refl s.game).congr fun _ _ => rfl
        exact .ok ⟨_, _, rfl, hown, List.not_mem_nil, rfl, hsame⟩
    | players | hexes => exact .error _
  | status phrase =>
    refine (mirrors_statusKind ha).agree hctx fun kind _ => ?_
    exact agree_onEachPiece (by simp [Sheet.abilities]) (fun p => p.addStatus_same ⟨id, kind⟩)
      (fun p => p.sheet_addStatus ⟨id, kind⟩) targets hctx
  | grant sentence => cases ha
  | activated text actions =>
    exact agree_onEachPiece (by simp [Sheet.abilities])
      (fun p => p.addActivation_same ⟨id, text, actions⟩)
      (fun p => p.sheet_addActivation ⟨id, text, actions⟩) targets hctx

end Resolving

/-! ### The record -/

namespace Piece
variable {id : AbilityId} {applied : Option Collection} {as : List Passive} {a : Passive}

theorem of_mem_setApplied (h : a ∈ changeFirst id (·.setApplied applied) as) (hid : a.id ≠ id) :
    a ∈ as := by
  induction as with
  | nil => cases h
  | cons b bs ih =>
    unfold changeFirst at h
    split at h
    · rename_i hb
      obtain rfl | h := List.mem_cons.1 h
      · exact absurd (eq_of_beq hb) hid
      · exact List.mem_cons_of_mem _ h
    · obtain rfl | h := List.mem_cons.1 h
      · exact List.mem_cons_self
      · exact List.mem_cons_of_mem _ (ih h)

theorem unwritten_setApplied (p : Piece) (id : AbilityId) (applied : Option Collection) :
    (p.changePassive id (·.setApplied applied)).unwritten = p.unwritten := by
  have hpassives : ∀ as : List Passive, (changeFirst id (·.setApplied applied) as).map
      (·.setApplied none) = as.map (·.setApplied none) := by
    intro as
    induction as with
    | nil => rfl
    | cons b bs ih =>
      unfold changeFirst
      split
      · rfl
      · rw [List.map_cons, List.map_cons, ih]
  unfold unwritten changePassive
  rw [hpassives]

end Piece

namespace Match
variable {f : Piece → Piece}

theorem unwritten_changePiece (hf : ∀ p, (f p).unwritten = p.unwritten) (m : Match) (id : PieceId) :
    (m.changePiece id f).unwritten = m.unwritten := by
  refine unwritten_board (fun e => ?_) (Board.modify_eq_map _ _ _)
  by_cases he : e.1 = id <;> simp [he, hf]

theorem sheets_changePiece (hf : ∀ p, (f p).sheet = p.sheet) (m : Match) (id : PieceId) :
    (m.changePiece id f).sheets = m.sheets := by
  have hpieces : (m.board.modify id f).entries.map (fun e => (Bearer.piece e.1, e.2.sheet)) =
      m.board.entries.map fun e => (.piece e.1, e.2.sheet) := by
    rw [Board.modify_eq_map, List.map_map]
    refine List.map_congr_left fun e _ => ?_
    by_cases he : e.1 = id <;> simp [he, hf]
  exact congrArg (· ++ handSheets [] m.cardsInHands) hpieces

/-! ### One ability -/

/-- The ability has been brought up to date as it has decreed: its entries have gone where it has
none to make, and come last elsewhere. -/
structure Obeys (owner : PieceId) (a : Passive) (d : Decree) (m m' : Match) : Prop where
  ability : d.ability = a.id
  own : ∀ id ∈ d.text.abilities, id = a.id
  double : .double ∉ d.bearers
  unwritten : m'.unwritten = m.unwritten
  sheets : m'.sheets = m.sheets.map fun e => (e.1, (e.2.keep (· != a.id)).append (d.on e.1))
  others : ∀ o b, m'.board.Installed o b → b.id ≠ a.id → m.board.Installed o b
  recorded : ∃ b targets, m'.board.Installed owner b ∧ b.id = a.id ∧ b.applied = some targets ∧
    targets.reset = d.targets

/-- The entries have been made and what they have been made on is recorded. -/
theorem Obeys.of_entered {owner : PieceId} {a : Passive} {m m' : Match} {bearers : List Bearer}
    {text : Sheet} (ha : m.board.Installed owner a) (hown : ∀ id ∈ text.abilities, id = a.id)
    (hdouble : .double ∉ bearers)
    (hentered : Changes (fun b x => if b ∈ bearers then (x.keep (· != a.id)).enter a.id text
      else x.keep (· != a.id)) m m') (targets : Collection) :
    Obeys owner a ⟨a.id, targets.reset, bearers, text⟩ m
      (m'.changePiece owner (·.changePassive a.id (·.setApplied (some targets)))) where
  ability := rfl
  own := hown
  double := hdouble
  unwritten := (unwritten_changePiece (f := (·.changePassive a.id (·.setApplied (some targets))))
    (fun p => p.unwritten_setApplied a.id _) m' owner).trans hentered.unwritten
  sheets := by
    refine (sheets_changePiece (f := (·.changePassive a.id (·.setApplied (some targets))))
      (fun _ => rfl) m' owner).trans (hentered.sheets.trans (List.map_congr_left fun e _ => ?_))
    unfold Decree.on
    split
    · rw [Sheet.enter_fresh Sheet.not_mem_keep]
    · rw [Sheet.append_empty]
  others := by
    rintro o b ⟨q, hq, hb⟩ hid
    rw [changePiece, changeBoard, Board.get?_modify] at hq
    obtain ⟨p, hp, rfl⟩ := Option.map_eq_some_iff.1 hq
    refine hentered.installed.1 ⟨p, hp, ?_⟩
    split at hb
    · exact Piece.of_mem_setApplied hb hid
    · exact hb
  recorded := by
    obtain ⟨p, hp, hmem⟩ := hentered.installed.2 ha
    cases hfound : p.passive? a.id with
    | none => exact absurd hfound (Piece.passive?_ne_none hmem)
    | some b =>
      have hid : b.id = a.id := by simpa using List.find?_some hfound
      have hself : (m'.board.modify owner (·.changePassive a.id (·.setApplied (some targets)))).get?
          owner = some (p.changePassive a.id (·.setApplied (some targets))) := by
        rw [Board.get?_modify_self, hp]
        rfl
      exact ⟨b.setApplied (some targets), targets, ⟨_, hself, Piece.mem_changeFirst_self hfound⟩,
        hid, rfl, rfl⟩

end Match

namespace Play
variable {owner : PieceId} {a : Passive} {s : Stage}

theorem run_reapplyOne (ha : (s.game.board.get? owner).bind (·.passive? a.id) = some a)
    (henabled : a.disabled = false) : (reapplyOne owner a.id).run s = (do
      let withdrawn := s.map (·.withdrawApplied a)
      let ctx := { Context.forPiece withdrawn.game owner with source := some a.id }
      let found ← ((Resolving.resolve a.targets).run ctx).run withdrawn
      let written ← ((Resolving.applyPassive a found.1.1).run found.1.2).run found.2
      return ((), written.2.map
        (·.changePiece owner (·.changePassive a.id (·.setApplied (some found.1.1)))))) := by
  have hlook : (piece? owner).run s = .ok (s.game.board.get? owner, s) := rfl
  unfold reapplyOne
  rw [StateT.run_bind, hlook]
  dsimp only [bind, Except.bind]
  rw [ha]
  dsimp only
  rw [henabled]
  refine congrArg (((Resolving.resolve a.targets).run _).run (s.map (·.withdrawApplied a)) >>= ·)
    (funext fun found => ?_)
  change (StateT.run' (Resolving.applyPassive a found.1.1) found.1.2 >>= fun _ => change
    (·.changePiece owner (·.changePassive a.id (·.setApplied (some found.1.1))))).run found.2 = _
  rw [StateT.run_bind, StateT.run'_eq, StateT.run_map]
  cases ((Resolving.applyPassive a found.1.1).run found.1.2).run found.2 <;> rfl

end Play

namespace Match
variable {owner : PieceId} {a : Passive} {s : Stage} {F : AbilityId → Prop}
  {todo : PieceId → AbilityId → Prop}

theorem agree_reapplyOne (hs : s.game.Accounted F todo) (hF : ∀ id, ¬ F id)
    (hnumbered : s.game.Numbered) (ha : s.game.board.Installed owner a) (hblind : a.blind = true) :
    Outcome.Agree (fun u d => u.2.trace = s.trace ∧ Obeys owner a d s.game u.2.game)
      ((Play.reapplyOne owner a.id).run s) (s.game.unwritten.decree owner a) := by
  obtain ⟨p, hp, hfound⟩ := hnumbered.passive? ha
  have hlook : (s.game.board.get? owner).bind (·.passive? a.id) = some a := by
    rw [hp]
    exact hfound
  unfold Passive.blind at hblind
  simp only [Bool.and_eq_true, Bool.not_eq_true'] at hblind
  obtain ⟨⟨henabled, htargets⟩, heffect⟩ := hblind
  have hwithdrawn := hs.changes_withdrawn hF hnumbered ha heffect
  have hstage : (s.map (·.withdrawApplied a)).unwritten = ⟨s.game.unwritten, []⟩ :=
    congrArg (Stage.mk · []) hwithdrawn.unwritten
  have hcontext : Context.forPiece s.game.unwritten owner =
      Context.forPiece (s.game.withdrawApplied a) owner := by
    rw [← hwithdrawn.unwritten, Context.forPiece_unwritten]
  have halone := Context.alone_forPiece (s.game.withdrawApplied a) owner (some a.id)
  rw [Play.run_reapplyOne hlook henabled, decree, hcontext, ← hstage]
  refine .map_right (R := fun u v => u.2.trace = s.trace ∧ Obeys owner a v.1.1 s.game u.2.game) ?_
    fun _ _ h => h
  refine (Resolving.mirrors_resolve a.targets htargets _ (s.map (·.withdrawApplied a)) halone).bind
    (l := fun v => ((Resolving.wording a v.1.1 >>= fun w =>
      pure (⟨a.id, v.1.1, w.1, w.2⟩ : Decree)).run v.1.2).run v.2) ?_
  rintro ⟨⟨targets, ctx⟩, found⟩ v - ⟨-, hu, rfl⟩
  cases hu
  refine (Resolving.agree_applyPassive heffect targets halone).bind (l := fun v =>
    .ok (((⟨a.id, targets.reset, v.1.1.1, v.1.1.2⟩ : Decree), v.1.2), v.2)) ?_
  rintro ⟨⟨_, _⟩, written⟩ _ - ⟨bearers, text, rfl, hown, hdouble, htrace, hentered⟩
  exact .ok ⟨htrace, .of_entered ha hown hdouble (hwithdrawn.trans hentered) targets⟩

end Match
end HexDuel
