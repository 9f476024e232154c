import HexDuel.Proofs.Assault
import HexDuel.Proofs.Numbers
import HexDuel.Proofs.Stray

/-!
Who meets whom in combat. The attacker and its target are enemies, and a strike comes from a cell
next to the target's, when the attack is looked at. An attacker that moves first sets effects off,
and these may take control of either side or move it before the blow. If they do neither, enemies
meet that are next to one another.
-/

set_option autoImplicit false

namespace HexDuel

/-! ### Combats that are told of -/

/-- Each combat that is told of was such a one, with what had been told before it. -/
def FoughtAs (P : Piece → Piece → List Happening → Prop) (trace : List Happening) : Prop :=
  ∀ later a d earlier, trace = later ++ .combat a d :: earlier → P a d earlier

namespace FoughtAs
variable {P : Piece → Piece → List Happening → Prop} {trace : List Happening}

theorem nil : FoughtAs P [] := by
  intro later a d earlier h
  exact absurd h.symm (List.append_ne_nil_of_right_ne_nil _ (List.cons_ne_nil _ _))

theorem combat {a d : Piece} (h : FoughtAs P trace) (hnew : P a d trace) :
    FoughtAs P (.combat a d :: trace) := by
  intro later a' d' earlier heq
  cases later with
  | nil =>
    cases heq
    exact hnew
  | cons x later =>
    cases heq
    exact h later a' d' earlier rfl

theorem peaceful {s s' : Stage} (h : FoughtAs P s.trace) (h' : s.Peaceful s') :
    FoughtAs P s'.trace := by
  obtain ⟨news, htrace, hnews⟩ := h'
  intro later a d earlier heq
  obtain ⟨between, -, hold⟩ | ⟨between, hsplit, hold⟩ :=
    List.append_eq_append_iff.1 (htrace.symm.trans heq)
  · exact h between a d earlier hold
  · cases between with
    | nil => exact h [] a d earlier hold.symm
    | cons x between =>
      -- a combat that is new is none of the news
      cases hold
      have hmem : .combat a d ∈ news := hsplit ▸ List.mem_append_right _ List.mem_cons_self
      cases hnews _ hmem

end FoughtAs

/-- The two sides as they should meet. Where the attacker has to move first, only what is told by
then can have changed that. -/
structure Duel (player : Color) (start target : Hex) (a d : Piece) (earlier : List Happening) :
    Prop where
  enemies : start.adjacent target = true ∨ usurped earlier = false →
    a.owner = player ∧ d.owner = player.opponent
  adjacent : start.adjacent target = true ∨ displaced earlier = false →
    a.hex.adjacent d.hex = true

/-! ### The way to the blow -/

/-- If the object is there, it is that player's and on that cell, unless it may have been taken or
moved. -/
def Stage.Expects (s : Stage) (near : Prop) (id : PieceId) (owner : Color) (hex : Hex) : Prop :=
  ∀ q, s.game.board.get? id = some q → (near ∨ usurped s.trace = false → q.owner = owner) ∧
    (near ∨ displaced s.trace = false → q.hex = hex)

namespace Stage.Expects
variable {s s' : Stage} {near : Prop} {id : PieceId} {owner : Color} {hex : Hex}

theorem of_get? {p : Piece} (hp : s.game.board.get? id = some p) (howner : p.owner = owner)
    (hhex : p.hex = hex) : s.Expects near id owner hex := by
  intro q hq
  cases hp.symm.trans hq
  exact ⟨fun _ => howner, fun _ => hhex⟩

theorem becomes (h : s.Expects near id owner hex)
    (hboard : s.game.board.Becomes Piece.SamePost s'.game.board) (hlater : s.trace <:+ s'.trace) :
    s'.Expects near id owner hex := by
  intro q hq
  obtain ⟨p, hp, hsame⟩ := hboard.get? hq
  obtain ⟨howner, hhex⟩ := h p hp
  exact ⟨fun hwhen => hsame.owner.trans
      (howner (hwhen.imp_right (any_eq_false_of_suffix hlater))),
    fun hwhen => hsame.hex.trans (hhex (hwhen.imp_right (any_eq_false_of_suffix hlater)))⟩

/-- Effects may change what is expected of an object, but not without telling. -/
theorem aftermath (h' : s.Aftermath s') (hfar : ¬ near) (h : s.Expects near id owner hex)
    (hid : id ≤ s.game.lastId) : s'.Expects near id owner hex := by
  intro q hq
  obtain ⟨p, hp, howner', hhex'⟩ := h'.posts id q hid hq
  obtain ⟨howner, hhex⟩ := h p hp
  have hbefore := h'.peaceful.suffix
  refine ⟨fun hwhen => ?_, fun hwhen => ?_⟩
  · have hnone := hwhen.resolve_left hfar
    exact (howner' hnone).trans (howner (.inr (any_eq_false_of_suffix hbefore hnone)))
  · have hnone := hwhen.resolve_left hfar
    exact (hhex' hnone).trans (hhex (.inr (any_eq_false_of_suffix hbefore hnone)))

end Stage.Expects

namespace Attempt
variable {run : Runner} {player : Color} {start target stand : Hex} {s s' mid : Stage}
  {a d : Piece}

/-- Where the blow comes from is next to where it goes. -/
theorem Approaches.adjacent {stops : List Hex} (h : Approaches run player start target s stand mid)
    (hstops : s.game.movementHexes start = .ok stops)
    (hreached : start.adjacent target = true ∨ ∃ stop ∈ stops, stop.adjacent target = true) :
    stand.adjacent target = true := by
  obtain ⟨hnear, hnone⟩ | ⟨step, -, hnear, hsome⟩ :=
    Match.stepBeforeAttack_of_reached hstops hreached
  · cases h with
    | near => exact hnear
    | afar hstep => cases hstep.symm.trans hnone
  · cases h with
    | near hstep => cases hstep.symm.trans hsome
    | afar hstep =>
      cases hstep.symm.trans hsome
      exact hnear

section Running

variable (hrun : run.Ripples)
include hrun

theorem Approaches.peaceful (h : Approaches run player start target s stand mid) :
    s.Peaceful mid := by
  cases h with
  | near => exact .of_trace rfl
  | afar _ hmove =>
    obtain ⟨p, walked, -, -, hwalked, hoccur⟩ := walk_of_movePiece hmove
    have htrace : walked.trace = s.trace := by cases hwalked <;> rfl
    exact .trans (.of_trace htrace) ((Play.ripples_announce hrun _ _).aftermath hoccur).peaceful

/-- Both sides are as they were, but that the attacker has come next to its target, unless it had to
move and something was taken or moved after that. -/
theorem Approaches.expects (h : Approaches run player start target s stand mid)
    (hsound : s.game.board.Sound) (hids : ∀ id ∈ s.game.board.ids, id ≤ s.game.lastId)
    (ha : s.game.board.pieceAt? start = some a) (hd : s.game.board.pieceAt? target = some d)
    (hne : d.owner ≠ a.owner) :
    mid.Expects (start.adjacent target = true) a.id a.owner stand ∧
      mid.Expects (start.adjacent target = true) d.id d.owner target := by
  have hgeta := hsound.get?_of_pieceAt? ha
  have hgetd := hsound.get?_of_pieceAt? hd
  have hhexa := (Board.mem_of_pieceAt? ha).2
  have hhexd := (Board.mem_of_pieceAt? hd).2
  cases h with
  | near => exact ⟨.of_get? hgeta rfl hhexa, .of_get? hgetd rfl hhexd⟩
  | afar hstep hmove =>
    have hfar : ¬ start.adjacent target = true := by
      intro hnear
      rw [Match.stepBeforeAttack, if_pos hnear] at hstep
      cases hstep
    obtain ⟨p, walked, hp, -, hcame, hoccur⟩ := walk_of_movePiece hmove
    cases ha.symm.trans hp
    have hlater := (Play.ripples_announce hrun _ _).aftermath hoccur
    have hle : ∀ {id q}, s.game.board.get? id = some q → id ≤ s.game.lastId := fun hq =>
      hids _ (List.mem_map.2 ⟨_, Board.mem_of_get? hq, rfl⟩)
    cases hcame with
    | gone _ _ hgone => cases hgone.symm.trans hgeta
    | @walked _ q _ _ _ =>
      generalize q.movesMade + (start.distance stand : Int) = made at hlater
      have hwalked : (s.game.board.modify a.id (·.walk made stand)).get? a.id =
          some (a.walk made stand) := by rw [Board.get?_modify_self, hgeta]; rfl
      have hothers : d.id ≠ a.id := by
        intro hid
        rw [hid, hgeta] at hgetd
        exact hne (congrArg Piece.owner (Option.some.inj hgetd)).symm
      have hstays : (s.game.board.modify a.id (·.walk made stand)).get? d.id = some d := by
        rw [Board.get?_modify_of_ne _ hothers, hgetd]
      constructor
      · exact .aftermath hlater hfar (.of_get? hwalked rfl rfl) (hle hgeta)
      · exact .aftermath hlater hfar (.of_get? hstays rfl hhexd) (hle hgetd)

/-- An attack tells of no combat but of the one it leads to. -/
theorem fought_of_attackPiece (hsound : s.game.board.Sound)
    (hids : ∀ id ∈ s.game.board.ids, id ≤ s.game.lastId) (hfresh : s.trace = [])
    (h : (attackPiece run player start target).run.run s = .ok (.ok (), s')) :
    FoughtAs (Duel player start target) s'.trace := by
  obtain ⟨a, hexes, defender, stand, mid, ha, rfl, hhexes, ht, hdefender, happroach, hstrikes⟩ :=
    approached_of_attackPiece h
  obtain ⟨hmay, stops, hstops, hreached⟩ := Match.reached_of_mem_attackHexes ha hhexes ht
  obtain ⟨d, hd, hne, -⟩ := Match.of_mayAttack hmay
  obtain rfl : d.id = defender := by
    rw [Board.idAt?, hd] at hdefender
    exact Option.some.inj hdefender
  obtain ⟨hattacker, hdefends⟩ := happroach.expects hrun hsound hids ha hd hne
  have hbefore : FoughtAs (Duel a.owner start target) mid.trace :=
    FoughtAs.peaceful (hfresh ▸ .nil) (happroach.peaceful hrun)
  have hstruck : mid.game.board.Becomes Piece.SamePost
      (mid.game.board.modify a.id (·.struck)) :=
    .modify Piece.upkept_samePost.refl (f := (·.struck)) (fun _ => ⟨rfl, rfl⟩) mid.game.board a.id
  cases hstrikes with
  | idle | vain => exact hbefore
  | blow hoccur =>
    cases fights_of_occur hrun hoccur with
    | parted h => exact hbefore.peaceful h.peaceful
    | @met a' d' met s' hmet ha' hd' h =>
      have hpeace := (aftermath_of_inquired hmet).peaceful
      have hboard : mid.game.board.Becomes Piece.SamePost met.game.board := by
        rw [board_of_inquired hmet]
        exact hstruck
      obtain ⟨howner, hhex⟩ := hattacker.becomes hboard hpeace.suffix a' ha'
      obtain ⟨howner', hhex'⟩ := hdefends.becomes hboard hpeace.suffix d' hd'
      refine FoughtAs.peaceful (.combat (hbefore.peaceful hpeace) ⟨fun hwhen => ?_, fun hwhen => ?_⟩)
        h.peaceful
      · exact ⟨howner hwhen, (howner' hwhen).trans (Match.eq_opponent_of_ne hne)⟩
      · rw [hhex hwhen, hhex' hwhen]
        exact happroach.adjacent hstops hreached

end Running
end Attempt

namespace Match
variable {depth : Nat} {m m' : Match} {c : Command} {player : Color} {start target : Hex}
  {chosen : List Choice} {trace : List Happening}

/-- However far an attack comes, it tells of no combat but of the one it leads to. -/
theorem Attempted.fought (hsound : m.board.Sound) (hids : ∀ id ∈ m.board.ids, id ≤ m.lastId)
    (h : Attempted depth m player (.attackPiece start target) chosen m' trace) :
    FoughtAs (Duel player start target) trace := by
  have hfought : ∀ st : Stage, (Attempt.attackPiece (Play.runner depth) player start target).run.run
      (m.scratch player chosen) = .ok (.ok (), st) → FoughtAs (Duel player start target) st.trace :=
    fun st hrun => Attempt.fought_of_attackPiece (Play.ripples_runner depth) hsound hids rfl hrun
  cases h with
  | @rejected r st hrun =>
    have htrace : st.trace = [] := Attempt.mild_attackPiece _ player start target _ _ _ hrun
    rw [htrace]
    exact .nil
  | refused _ hrun => exact hfought _ hrun
  | suspended hrun => exact hfought _ hrun
  | carried hrun _ _ hsettle =>
    have hsettled := (Play.ripples_settle (Play.ripples_runner depth)).aftermath hsettle
    exact (hfought _ hrun).peaceful hsettled.peaceful

/-- Who meets in combat when an attack is carried out: an object of the attacking player and one of
the opponent's, next to one another, if the attacker did not have to move or nothing was taken or
moved before the blow. -/
theorem Reachable.combat_duel {a d : Piece} {later earlier : List Happening} (hm : m.Reachable)
    (hattack : m.resumption? c = some (.attackPiece start target))
    (h : m.submitTraced depth c = .ok (m', later ++ .combat a d :: earlier)) :
    Duel c.player start target a d earlier := by
  have hids : ∀ id ∈ m.board.ids, id ≤ m.lastId := fun id hid =>
    hm.numbered.le id (List.mem_append_left _ hid)
  obtain ⟨-, htrace⟩ | ⟨chosen, h⟩ := attempted_of_resumption h hattack
  · exact absurd htrace (List.append_ne_nil_of_right_ne_nil _ (List.cons_ne_nil _ _))
  · have hsound : m.heard.board.Sound := hm.board_sound
    exact h.fought hsound hids later a d earlier rfl

/-- A combat of that kind among what is told. -/
theorem exists_combat_of_any (test : Piece → Piece → Bool) {trace : List Happening}
    (h : (trace.any fun | .combat a d => test a d | _ => false) = true) :
    ∃ later a d earlier, trace = later ++ .combat a d :: earlier ∧ test a d = true := by
  obtain ⟨happened, hmem, htest⟩ := List.any_eq_true.1 h
  obtain ⟨later, earlier, hsplit⟩ := List.append_of_mem hmem
  split at htest
  · exact ⟨later, _, _, earlier, hsplit, htest⟩
  · cases htest

/-- The robot goes round its structure and meets orange's. -/
theorem Reachable.combat_duel_siege :
    ∃ (m m' : Match) (a d : Piece) (later earlier : List Happening),
    Reachable m ∧ m.submitTraced maxDepth (.attackPiece .blue (.axial (-3) 1) (.axial (-3) 3)) =
      .ok (m', later ++ .combat a d :: earlier) ∧
    Hex.adjacent (.axial (-3) 1) (.axial (-3) 3) = false ∧
    usurped earlier = false ∧ displaced earlier = false ∧
    Duel .blue (.axial (-3) 1) (.axial (-3) 3) a d earlier := by
  have hrun : ((siege []).start.holds fun m => (m.submitTraced maxDepth .playSolo).holds fun x =>
      (x.1.submitTraced maxDepth (.attackPiece .blue (.axial (-3) 1) (.axial (-3) 3))).holds fun y =>
        (y.2.any fun | .combat .. => true | _ => false) && !usurped y.2 && !displaced y.2) =
      true := by
    decide +kernel
  obtain ⟨m₀, hstart, hrun⟩ := Outcome.exists_of_holds hrun
  obtain ⟨⟨m, _⟩, hplay, hrun⟩ := Outcome.exists_of_holds hrun
  obtain ⟨⟨m', trace⟩, hattack, hrun⟩ := Outcome.exists_of_holds hrun
  simp only [Bool.and_eq_true, Bool.not_eq_true'] at hrun
  obtain ⟨⟨hcombat, hkept⟩, hstayed⟩ := hrun
  obtain ⟨later, a, d, earlier, rfl, -⟩ := exists_combat_of_any (fun _ _ => true) hcombat
  have hsuffix : earlier <:+ later ++ .combat a d :: earlier :=
    (List.suffix_cons _ _).trans (List.suffix_append _ _)
  have hm : Reachable m := (Reachable.start hstart).next hplay
  exact ⟨m, m', a, d, later, earlier, hm, hattack, by decide, any_eq_false_of_suffix hsuffix hkept,
    any_eq_false_of_suffix hsuffix hstayed, hm.combat_duel rfl hattack⟩

/-- A robot that moves orange's structure away once it has moved itself, and then takes it. -/
def ambush : MatchSetup := siege [.giveAbility (.piecesInPlay (.only .robot))
  (.setTrigger ⟨⟨.afterMove, .thisPiece, .anyEvent, none⟩,
    [.movePiece (.piecesMatching (.only .building) [.controlledBy .opponent])
      (.tilesMatching [.unoccupied]),
    .takeControl .selfPlayer (.piecesInPlay (.only .building))], false, none⟩) none]

/-- The robot strikes at what is blue's by then, and is not next to it. -/
theorem combat_ambush : ∃ (m m' : Match) (a d : Piece) (later earlier : List Happening),
    Reachable m ∧ m.submitTraced maxDepth (.attackPiece .blue (.axial (-3) 1) (.axial (-3) 3)) =
      .ok (m', later ++ .combat a d :: earlier) ∧
    ¬ (d.owner = .orange) ∧ ¬ (a.hex.adjacent d.hex = true) := by
  have hrun : (ambush.start.holds fun m => (m.submitTraced maxDepth .playSolo).holds fun x =>
      (x.1.submitTraced maxDepth (.attackPiece .blue (.axial (-3) 1) (.axial (-3) 3))).holds fun y =>
        y.2.any fun | .combat a d => d.owner == .blue && !a.hex.adjacent d.hex | _ => false) =
      true := by
    decide +kernel
  obtain ⟨m₀, hstart, hrun⟩ := Outcome.exists_of_holds hrun
  obtain ⟨⟨m, _⟩, hplay, hrun⟩ := Outcome.exists_of_holds hrun
  obtain ⟨⟨m', trace⟩, hattack, hrun⟩ := Outcome.exists_of_holds hrun
  obtain ⟨later, a, d, earlier, rfl, htest⟩ := exists_combat_of_any
    (fun a d => d.owner == .blue && !a.hex.adjacent d.hex) hrun
  simp only [Bool.and_eq_true, beq_iff_eq, Bool.not_eq_true'] at htest
  obtain ⟨howner, hapart⟩ := htest
  refine ⟨m, m', a, d, later, earlier, (Reachable.start hstart).next hplay, hattack, ?_, ?_⟩
  · rw [howner]
    exact Color.noConfusion
  · rw [hapart]
    exact Bool.false_ne_true

end Match
end HexDuel
