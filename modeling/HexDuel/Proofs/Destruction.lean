import HexDuel.Proofs.Chronicle
import HexDuel.Proofs.Doom
import HexDuel.Proofs.Numbers

/-!
Destruction comes once. An object that falls is marked as long as it is on the board, and no
destruction begins for one that is marked; once it has left the board nothing comes under its number
again. So in all that happens no object falls twice, and its card is put away the one time that the
object leaves the board: by what answers its fall, or else on the discard pile of its owner.
-/

set_option autoImplicit false

namespace HexDuel

/-! ### What is told of destructions -/

/-- The destruction of that object begins. -/
def Happening.topples (id : PieceId) : Happening → Bool
  | .toppled k => k == id
  | _ => false

/-- How many destructions of the object are told of. -/
def falls (id : PieceId) (trace : List Happening) : Nat := trace.countP (·.topples id)

theorem falls_beats (id : PieceId) (trace : List Happening) :
    falls id (beats trace) = falls id trace := by
  unfold falls beats
  rw [List.countP_filter]
  refine List.countP_congr fun h _ => ?_
  cases h <;> simp [Happening.topples, Happening.isBeat]

theorem falls_append (id : PieceId) (later earlier : List Happening) :
    falls id (later ++ earlier) = falls id later + falls id earlier := List.countP_append

theorem falls_toppled (id k : PieceId) (past : List Happening) :
    falls id (.toppled k :: past) = falls id past + if k = id then 1 else 0 := by
  unfold falls
  rw [List.countP_cons]
  simp [Happening.topples]

variable {s s' s'' : Stage}

theorem Stage.Calm.falls (h : s.Calm s') (id : PieceId) :
    falls id s'.trace = falls id s.trace := by
  rw [← falls_beats, h.beats, falls_beats]

/-! ### Conduct by destructions -/

/-- The same card, falling or not as before. -/
def Piece.SameFall (p q : Piece) : Prop := q.falling = p.falling ∧ q.card = p.card

namespace Piece.SameFall

theorem refl (p : Piece) : p.SameFall p := ⟨rfl, rfl⟩

theorem trans {p q r : Piece} (h : p.SameFall q) (h' : q.SameFall r) : p.SameFall r :=
  ⟨h'.1.trans h.1, h'.2.trans h.2⟩

end Piece.SameFall

theorem Piece.upkept_sameFall : Upkept SameFall :=
  .of_rewritten (fun _ _ _ => .trans) fun p q h => by
    obtain ⟨_, _, _, _, _, rfl⟩ := h
    exact ⟨rfl, rfl⟩

/-- Every other object is still there with its card, falling or not as before. -/
def Board.Leaves (b : Board) (id : Option PieceId) (b' : Board) : Prop :=
  ∀ k p, b.get? k = some p → some k ≠ id → ∃ q, b'.get? k = some q ∧ p.SameFall q

namespace Board.Leaves
variable {b b' b'' : Board} {id : Option PieceId}

theorem refl (b : Board) : b.Leaves id b := fun _ p hp _ => ⟨p, hp, .refl p⟩

theorem trans (h : b.Leaves id b') (h' : b'.Leaves id b'') : b.Leaves id b'' := by
  intro k p hp hk
  obtain ⟨q, hq, hsame⟩ := h k p hp hk
  obtain ⟨r, hr, hsame'⟩ := h' k q hq hk
  exact ⟨r, hr, hsame.trans hsame'⟩

theorem of_becomes (h : b.Becomes Piece.SameFall b') : b.Leaves id b' :=
  fun _ _ hp _ => h.get?_of_some hp

theorem of_toured (h : b.Toured b') : b.Leaves id b' := by
  cases h with
  | stays h => exact of_becomes (h.mono fun _ _ hintact => ⟨hintact.falling, hintact.card⟩)
  | comes => exact fun k p hp _ => ⟨p, Board.get?_enter_of_some _ hp, .refl p⟩

theorem erase (b : Board) (id : PieceId) : b.Leaves (some id) (b.erase id) := by
  intro k p hp hk
  have hk : k ≠ id := fun heq => hk (congrArg some heq)
  exact ⟨p, by rw [get?_erase, if_neg hk, hp], .refl p⟩

end Board.Leaves

theorem TakenOff.leaves {id : PieceId} {p : Piece} (h : TakenOff s id p s') :
    s.game.board.Leaves (some id) s'.game.board :=
  (Board.Leaves.erase s.game.board id).trans
    (.of_becomes (Piece.upkept_sameFall.tended h.removed.tended))

theorem Stage.Dooms.leaves {id : PieceId} {start : Stage} (h : s.Dooms id start) (card : Card) :
    s.game.board.Leaves (some id) (start.topple id card).game.board := by
  intro k p hp hk
  have hk : k ≠ id := fun heq => hk (congrArg some heq)
  exact ⟨p, by rw [h.get?_topple card hk, hp], .refl p⟩

theorem Buried.leaves {id : PieceId} (h : Buried id s s') :
    s.game.board.Leaves (some id) s'.game.board := by
  cases h with
  | gone => exact .refl _
  | @discard p mid h =>
    rw [mid.board_discarded]
    exact h.leaves

/-- No destruction is told of, and every object is still there, falling or not as before. -/
structure Stage.Steady (s s' : Stage) : Prop where
  falls : ∀ id, HexDuel.falls id s'.trace = HexDuel.falls id s.trace
  leaves : s.game.board.Leaves none s'.game.board

theorem Stage.Calm.steady (h : s.Calm s') (hleaves : s.game.board.Leaves none s'.game.board) :
    s.Steady s' := ⟨h.falls, hleaves⟩

theorem Stage.Steady.of_tended (h : Relation.ReflTransGen Tending s s') : s.Steady s' :=
  (frugal_of_tended h).toCalm.steady (.of_becomes (Piece.upkept_sameFall.tended h))

theorem Stage.steady_retire (s : Stage) : s.Steady s.retire := by
  refine ⟨fun _ => rfl, Board.Leaves.trans (.of_becomes (.mapPieces (f := (·.endTurnOf s.game.turn))
    (fun p => ?_) s.game.board)) (.of_becomes ?_)⟩
  · unfold Piece.endTurnOf
    split <;> exact ⟨rfl, rfl⟩
  · exact Piece.upkept_sameFall.withdrawAll (f := (·.countDown)) (fun _ => ⟨rfl, rfl⟩) _ _

theorem Stage.Begins.steady {c : Color} (h : (s.handOver c).Begins s') : s.Steady s' := by
  have hboard : (s.handOver c).game.board = s.game.board := Match.board_checkVictory s.game
  cases h with
  | closed => exact ⟨fun _ => rfl, hboard ▸ .refl _⟩
  | begun =>
    refine ⟨fun _ => rfl, ?_⟩
    rw [← hboard]
    refine .of_becomes (.mapPieces (f := (·.beginTurnOf c)) (fun p => ?_) _)
    unfold Piece.beginTurnOf
    split <;> exact ⟨rfl, rfl⟩

/-- Conduct goes by what destroys nothing, by objects that are taken back and by destructions. -/
theorem Conduct.by_destructions {P : Stage → Stage → Prop}
    (hsteady : ∀ s s', Deeds s s' → s.Steady s' → P s s')
    (htrans : ∀ s s' s'', Deeds s s' → Deeds s' s'' → P s s' → P s' s'' → P s s'')
    (hreturn : ∀ s id p mid, TakenOff s id p mid →
      P s (mid.map fun m => Play.giveBack p.owner p.card.reset m.checkVictory))
    (hdestroy : ∀ s id p start fallen s', s.game.board.get? id = some p → p.falling = false →
      s.Dooms id start → Conduct (start.topple id p.card) fallen →
      P (start.topple id p.card) fallen → Buried id fallen s' → P s s')
    (h : Conduct s s') : P s s' := by
  have hwhole : ∀ {s s' : Stage}, Conduct s s' → s.Steady s' → P s s' := fun hconduct =>
    hsteady _ _ hconduct.act.deeds
  induction h with
  | refl s => exact hwhole (.refl s) ⟨fun _ => rfl, .refl _⟩
  | trans h h' ih ih' => exact htrans _ _ _ h.act.deeds h'.act.deeds ih ih'
  | errand h hfrugal hgoes htires =>
    exact hwhole (.errand h hfrugal hgoes htires) (hfrugal.steady (.of_toured h.toured))
  | delay h => exact hwhole (.delay h) (h.frugal.steady (.of_toured h.errand.toured))
  | fund c h => exact hwhole (.fund c h) ⟨fun _ => rfl, .refl _⟩
  | reapply h => exact hwhole (.reapply h) (.of_tended (Play.goes_reapply _ _ _ h))
  | install id sentence duration h =>
    exact hwhole (.install id sentence duration h) (.of_tended (Play.goes_grant _ _ _ _ _ _ _ h))
  | @condemn id s h =>
    refine hwhole (.condemn id h) ⟨fun _ => rfl, fun k p hp _ => ?_⟩
    refine ⟨_, (Board.get?_modify s.game.board id k (·.condemn)).trans (congrArg _ hp), ?_⟩
    dsimp only
    split <;> exact ⟨rfl, rfl⟩
  | destroy hp hstanding hdooms hfallen hburied ih =>
    exact hdestroy _ _ _ _ _ _ hp hstanding hdooms hfallen ih hburied
  | giveBack h => exact hreturn _ _ _ _ h
  | @spawn target place side ctx ctx' cards card hex owner s found s' hnoted hresolve hhead hinquired
      htakes hknown =>
    have hfound := (Resolving.inquired_of_resolve hresolve).trans hinquired
    have hcalm := (frugal_of_inquired hfound).toCalm.trans (.place card hex owner false)
    refine hwhole (.spawn hnoted hresolve hhead hinquired htakes hknown) (hcalm.steady ?_)
    rw [← board_of_inquired hfound]
    exact .of_toured (s'.toured_place card hex owner false)
  | @pass s ended s' hended hasked hbegins ih =>
    have hretired := hsteady _ _ s.act_retire.deeds s.steady_retire
    have hhanded : Deeds ended s' := by
      refine Deeds.trans (Act.deeds (Stage.act_handOver ?_)) hbegins.act.deeds
      rwa [Color.opponent_opponent]
    exact htrans _ _ _ s.act_retire.deeds (hended.act.deeds.trans hhanded) hretired
      (htrans _ _ _ hended.act.deeds hhanded ih (hsteady _ _ hhanded hbegins.steady))

/-! ### Objects that fall -/

/-- The number has been handed out, and the object under it falls if it is still on the board. -/
structure Match.Fallen (m : Match) (id : PieceId) : Prop where
  known : id ≤ m.lastId
  falling : ∀ p, m.board.get? id = some p → p.falling = true

variable {id : PieceId}

theorem Board.mem_ids_of_get? {b : Board} {p : Piece} (h : b.get? id = some p) : id ∈ b.ids :=
  List.mem_map_of_mem (f := Prod.fst) (Board.mem_of_get? h)

theorem Board.get?_of_mem_ids {b : Board} (h : id ∈ b.ids) : ∃ p, b.get? id = some p := by
  cases hp : b.get? id with
  | some p => exact ⟨p, rfl⟩
  | none =>
    obtain ⟨e, he, rfl⟩ := List.mem_map.1 h
    have hnot := List.lookup_eq_none_iff.1 hp e he
    exact absurd hnot (by simp)

/-- What stands under a number that had been handed out before has stood there before. -/
theorem Deeds.get?_of_known (h : Deeds s s') (hs : s.game.Numbered) (hknown : id ≤ s.game.lastId)
    {q : Piece} (hq : s'.game.board.get? id = some q) : ∃ p, s.game.board.get? id = some p := by
  obtain hmem | hlt := (h.follows hs).2.ids id (Board.mem_ids_of_get? hq)
  · exact Board.get?_of_mem_ids hmem
  · exact absurd hknown (Nat.not_le.2 hlt)

theorem Match.Fallen.later (hid : s.game.Fallen id) (hs : s.game.Numbered) (h : Deeds s s')
    {gone : Option PieceId} (hleaves : s.game.board.Leaves gone s'.game.board)
    (hgone : gone = some id → s'.game.board.get? id = none) : s'.game.Fallen id where
  known := Nat.le_trans hid.known (h.follows hs).2.lastId
  falling q hq := by
    obtain ⟨p, hp⟩ := h.get?_of_known hs hid.known hq
    have hother : some id ≠ gone := fun heq => nomatch (hgone heq.symm).symm.trans hq
    obtain ⟨r, hr, hsame⟩ := hleaves id p hp hother
    obtain rfl := Option.some.inj (hq.symm.trans hr)
    exact hsame.1.trans (hid.falling p hp)

theorem Stage.Dooms.falls_topple {start : Stage} {k : PieceId} (h : s.Dooms k start) (card : Card)
    (id : PieceId) : HexDuel.falls id (start.topple k card).trace =
      HexDuel.falls id s.trace + if k = id then 1 else 0 := by
  obtain rfl | rfl := h <;> exact falls_toppled id k _

/-- In between the object does not fall, or it falls once and has not fallen before. -/
inductive Stage.Fells (s : Stage) (id : PieceId) (s' : Stage) : Prop where
  | never : falls id s'.trace = falls id s.trace → (s.game.Fallen id → s'.game.Fallen id) →
    s.Fells id s'
  | once : ¬ s.game.Fallen id → falls id s'.trace = falls id s.trace + 1 → s'.game.Fallen id →
    s.Fells id s'

theorem Stage.Fells.trans (h : s.Fells id s') (h' : s'.Fells id s'') : s.Fells id s'' := by
  cases h with
  | never hsame hkept =>
    cases h' with
    | never hsame' hkept' => exact .never (hsame'.trans hsame) fun hid => hkept' (hkept hid)
    | once hnot hone hdown => exact .once (fun hid => hnot (hkept hid)) (by rw [hone, hsame]) hdown
  | once hnot hone hdown =>
    cases h' with
    | never hsame hkept => exact .once hnot (hsame.trans hone) (hkept hdown)
    | once hnot' => exact absurd hdown hnot'

/-- No destruction is told of when an object is taken off or none is, and none comes back. -/
theorem Stage.Fells.of_leaves (hs : s.game.Numbered) (h : Deeds s s') (hfalls : falls id s'.trace =
      falls id s.trace) {gone : Option PieceId} (hleaves : s.game.board.Leaves gone s'.game.board)
    (hgone : gone = some id → s'.game.board.get? id = none) : s.Fells id s' :=
  .never hfalls fun hid => hid.later hs h hleaves hgone

theorem Buried.fells {k : PieceId} (h : Buried k s s') (hs : s.game.Numbered) (id : PieceId) :
    s.Fells id s' := by
  refine .of_leaves hs h.deeds (h.frugal.falls id) h.leaves fun heq => ?_
  cases heq
  exact h.spares.2

theorem Stage.Dooms.fells {start : Stage} {k : PieceId} {p : Piece} (h : s.Dooms k start)
    (hs : s.game.Numbered) (hp : s.game.board.get? k = some p) (hstanding : p.falling = false)
    (id : PieceId) : s.Fells id (start.topple k p.card) := by
  have hdeeds := h.deeds p.card
  have hfalls := h.falls_topple p.card id
  by_cases hk : k = id
  · subst hk
    rw [if_pos rfl] at hfalls
    refine .once (fun hid => nomatch (hid.falling p hp).symm.trans hstanding) hfalls ⟨?_, ?_⟩
    · exact Nat.le_trans (hs.le k (List.mem_append_left _ (Board.mem_ids_of_get? hp)))
        (hdeeds.follows hs).2.lastId
    · intro q hq
      have hmodified : (start.game.board.modify k (·.fall)).get? k = some q := hq
      rw [Board.get?_modify_self] at hmodified
      obtain ⟨r, -, rfl⟩ := Option.map_eq_some_iff.1 hmodified
      rfl
  · rw [if_neg hk] at hfalls
    exact .of_leaves hs hdeeds hfalls (h.leaves p.card) fun heq => absurd (Option.some.inj heq) hk

theorem Stage.Steady.fells (h : s.Steady s') (hdeeds : Deeds s s') (hs : s.game.Numbered)
    (id : PieceId) : s.Fells id s' := .of_leaves hs hdeeds (h.falls id) h.leaves (nomatch ·)

/-- An object falls no more than once, and when it does it has not fallen before. -/
theorem Conduct.fells (h : Conduct s s') (hs : s.game.Numbered) (id : PieceId) : s.Fells id s' := by
  revert hs
  refine Conduct.by_destructions (P := fun s s' => s.game.Numbered → s.Fells id s') ?_ ?_ ?_ ?_ h
  · exact fun s s' hdeeds hsteady hs => hsteady.fells hdeeds hs id
  · exact fun s s' s'' hfirst _ ih ih' hs => (ih hs).trans (ih' (hfirst.follows hs).1)
  · intro s k p mid htaken hs
    have hboard := mid.board_returned p.owner p.card.reset
    refine .of_leaves hs (Conduct.giveBack htaken).act.deeds
      ((htaken.frugal.trans (mid.frugal_returned _ _)).falls id) (hboard.symm ▸ htaken.leaves)
      fun heq => ?_
    cases heq
    exact hboard ▸ htaken.spares.2
  · intro s k p start fallen s' hp hstanding hdooms hfallen ih hburied hs
    have htoppled := ((hdooms.deeds p.card).follows hs).1
    have hfell := (hfallen.act.deeds.follows htoppled).1
    exact ((hdooms.fells hs hp hstanding id).trans (ih htoppled)).trans (hburied.fells hfell id)

/-! ### Where the card goes -/

/-- By deeds of which none takes the object off the board or puts it there. -/
def Stage.Keeps (id : PieceId) : Stage → Stage → Prop :=
  Relation.ReflTransGen fun s s' => Deed s s' ∧ (id ∈ s'.game.board.ids ↔ id ∈ s.game.board.ids)

/-- What is off the board under a number that had been handed out does not come back, so that the
object is there all the time or not at all. -/
theorem Deeds.keeps (h : Deeds s s') (hs : s.game.Numbered) (hknown : id ≤ s.game.lastId)
    (hsame : id ∈ s'.game.board.ids ↔ id ∈ s.game.board.ids) : s.Keeps id s' := by
  induction h with
  | refl => exact .refl
  | @tail mid s' hfirst hlast ih =>
    have hback : ∀ {s s' : Stage}, Deeds s s' → s.game.Numbered → id ≤ s.game.lastId →
        id ∈ s'.game.board.ids → id ∈ s.game.board.ids := fun h hs hknown hid =>
      ((h.follows hs).2.ids id hid).resolve_right (Nat.not_lt.2 hknown)
    obtain ⟨hmid, hfollows⟩ := Deeds.follows hfirst hs
    have hlater := hback (.single hlast) hmid (Nat.le_trans hknown hfollows.lastId)
    have hearlier := hback hfirst hs hknown
    exact (ih ⟨hearlier, fun hid => hlater (hsame.2 hid)⟩).tail
      ⟨hlast, fun hid => hlater hid, fun hid => hsame.2 (hearlier hid)⟩

/-- The object with that card is still on the board and falls, or it is taken back on the way. -/
inductive Stage.Falls (s : Stage) (id : PieceId) (card : Card) (s' : Stage) : Prop where
  | still {q : Piece} : s'.game.board.get? id = some q → q.falling = true → q.card = card →
    s.Falls id card s'
  | taken {a mid : Stage} {q : Piece} : Deeds s a → TakenOff a id q mid → q.card = card →
    Deeds (mid.map fun m => Play.giveBack q.owner q.card.reset m.checkVictory) s' →
    s.Falls id card s'

theorem Stage.Falls.of_leaves {p : Piece} (hp : s.game.board.get? id = some p)
    (hfalling : p.falling = true) {gone : Option PieceId}
    (hleaves : s.game.board.Leaves gone s'.game.board) (hother : some id ≠ gone) :
    s.Falls id p.card s' := by
  obtain ⟨q, hq, hmark, hcard⟩ := hleaves id p hp hother
  exact .still hq (hmark.trans hfalling) hcard

theorem Stage.Falls.trans {card : Card} (h : s.Falls id card s') (hdeeds : Deeds s s')
    (hlater : Deeds s' s'') (h' : ∀ q, s'.game.board.get? id = some q → q.falling = true →
      q.card = card → s'.Falls id card s'') : s.Falls id card s'' := by
  cases h with
  | still hq hfalling hcard =>
    cases h' _ hq hfalling hcard with
    | still hr hfalling' hcard' => exact .still hr hfalling' hcard'
    | taken hbefore htaken hcard' hafter => exact .taken (hdeeds.trans hbefore) htaken hcard' hafter
  | taken hbefore htaken hcard hafter => exact .taken hbefore htaken hcard (hafter.trans hlater)

/-- While an object falls nothing but an action that takes it back takes it off the board. -/
theorem Conduct.falling (h : Conduct s s') {p : Piece} (hp : s.game.board.get? id = some p)
    (hfalling : p.falling = true) : s.Falls id p.card s' := by
  revert p
  refine Conduct.by_destructions (P := fun s s' => ∀ {p : Piece}, s.game.board.get? id = some p →
    p.falling = true → s.Falls id p.card s') ?_ ?_ ?_ ?_ h
  · exact fun s s' _ hsteady p hp hfalling => .of_leaves hp hfalling hsteady.leaves (nomatch ·)
  · intro s s' s'' hfirst hlast ih ih' p hp hfalling
    exact (ih hp hfalling).trans hfirst hlast fun q hq hfalling hcard => hcard ▸ ih' hq hfalling
  · intro s k q mid htaken p hp hfalling
    by_cases hk : id = k
    · subst hk
      obtain rfl := Option.some.inj (htaken.held.symm.trans hp)
      exact .taken .refl htaken rfl .refl
    · have hleaves := mid.board_returned q.owner q.card.reset ▸ htaken.leaves
      exact .of_leaves hp hfalling hleaves fun heq => hk (Option.some.inj heq)
  · intro s k q start fallen s' hq hstanding hdooms hfallen ih hburied p hp hfalling
    have hk : some id ≠ some k := by
      rintro heq
      cases heq
      obtain rfl := Option.some.inj (hq.symm.trans hp)
      exact nomatch hfalling.symm.trans hstanding
    have hbegun : s.Falls id p.card (start.topple k q.card) :=
      .of_leaves hp hfalling (hdooms.leaves q.card) hk
    have hfell := hfallen.act.deeds
    refine (hbegun.trans (hdooms.deeds q.card) hfell fun r hr hfalling hcard =>
      hcard ▸ ih hr hfalling).trans ((hdooms.deeds q.card).trans hfell) hburied.deeds ?_
    exact fun r hr hfalling hcard => hcard ▸ .of_leaves hr hfalling hburied.leaves hk

/-- The object leaves the board once and for good, and that is when its card is put away. What
answers its fall has it taken back, so that the card goes to the hand of its owner or onto the discard
pile beside a full hand, or else the card is discarded by its owner. -/
inductive Stage.PutsAway (toppled : Stage) (id : PieceId) (card : Card) (fallen s' : Stage) :
    Prop where
  | byAnswer {a mid : Stage} {q : Piece} : toppled.Keeps id a → TakenOff a id q mid →
    q.card = card → (mid.map fun m => Play.giveBack q.owner q.card.reset m.checkVictory).Keeps id fallen →
    fallen.Keeps id s' → toppled.PutsAway id card fallen s'
  | byOwner {mid : Stage} {q : Piece} : toppled.Keeps id fallen → TakenOff fallen id q mid →
    q.card = card → (mid.map fun m => m.checkVictory.discard q.owner q.card.reset).Keeps id s' →
    toppled.PutsAway id card fallen s'

theorem Board.not_mem_ids {b : Board} (h : b.get? id = none) : id ∉ b.ids := by
  intro hmem
  obtain ⟨p, hp⟩ := Board.get?_of_mem_ids hmem
  exact nomatch h.symm.trans hp

/-- What is off the board stays off. -/
theorem Deeds.keeps_off (h : Deeds s s') (hs : s.game.Numbered) (hknown : id ≤ s.game.lastId)
    (hoff : s.game.board.get? id = none) : s.Keeps id s' := by
  have hnot := Board.not_mem_ids hoff
  refine h.keeps hs hknown ⟨fun hmem => ?_, fun hmem => (hnot hmem).elim⟩
  exact ((h.follows hs).2.ids id hmem).resolve_right (Nat.not_lt.2 hknown)

theorem Deeds.keeps_on (h : Deeds s s') (hs : s.game.Numbered) (hknown : id ≤ s.game.lastId)
    {p q : Piece} (hp : s.game.board.get? id = some p) (hq : s'.game.board.get? id = some q) :
    s.Keeps id s' :=
  h.keeps hs hknown ⟨fun _ => Board.mem_ids_of_get? hp, fun _ => Board.mem_ids_of_get? hq⟩

namespace Play

/-- Whatever has come about while the object fell, its card is put away when the object is. -/
theorem putsAway {start fallen buried : Stage} {p : Piece} (hs : start.game.Numbered)
    (hp : start.game.board.get? id = some p) (hfalling : p.falling = true)
    (hfallen : Conduct start fallen) (hburied : Buried id fallen buried)
    (hreapply : reapply.run buried = .ok ((), s')) : start.PutsAway id p.card fallen s' := by
  have hknown : id ≤ start.game.lastId :=
    hs.le id (List.mem_append_left _ (Board.mem_ids_of_get? hp))
  have hlater : ∀ {t}, Deeds start t → t.game.Numbered ∧ id ≤ t.game.lastId := fun ht =>
    ⟨(ht.follows hs).1, Nat.le_trans hknown (ht.follows hs).2.lastId⟩
  have hoff : ∀ {t t'}, Deeds start t → Deeds t t' → t.game.board.get? id = none →
      t.Keeps id t' := fun ht ht' hnone => ht'.keeps_off (hlater ht).1 (hlater ht).2 hnone
  have hend : Deeds buried s' := deeds_of_tended (goes_reapply _ _ _ hreapply)
  have hfell := hfallen.act.deeds
  cases hfallen.falling hp hfalling with
  | @still q hq hfalling hcard =>
    cases hburied with
    | gone hnone => exact nomatch hnone.symm.trans hq
    | @discard r mid htaken =>
      obtain rfl := Option.some.inj (htaken.held.symm.trans hq)
      have hburied : Buried id fallen _ := .discard htaken
      exact .byOwner (hfell.keeps_on hs hknown hp hq) htaken hcard
        (hoff (hfell.trans hburied.deeds) hend hburied.spares.2)
  | @taken a mid q hbefore htaken hcard hafter =>
    have hgone : (mid.map fun m => giveBack q.owner q.card.reset m.checkVictory).game.board.get? id =
        none := by
      rw [mid.board_returned]
      exact htaken.spares.2
    have hreturned := hbefore.trans (Conduct.giveBack htaken).act.deeds
    cases hburied with
    | gone hnone =>
      exact .byAnswer (hbefore.keeps_on hs hknown hp htaken.held) htaken hcard
        (hoff hreturned hafter hgone) (hoff hfell hend hnone)
    | discard htaken' =>
      obtain ⟨r, hr⟩ := hafter.get?_of_known (hlater hreturned).1 (hlater hreturned).2 htaken'.held
      exact nomatch hgone.symm.trans hr

/-- A call that begins a destruction. -/
theorem destroyed (hs : s.game.Numbered) {depth : Nat} {cause : Option Cause} {ctx : Context}
    {p : Piece} {a : Unit} (hp : s.game.board.get? id = some p) (hdoomed : p.isDoomed = .ok true)
    (hstanding : p.falling = false)
    (h : (destroyIfDoomed (runner depth) id cause ctx).run s = .ok (a, s')) :
    falls id s'.trace = falls id s.trace + 1 ∧ s'.game.board.get? id = none ∧
    ∃ fallen, (occur (runner depth) ((Occurrence.ofPiece .afterDestroyed id).withCause cause) ctx
      (pure ())).run (s.topple id p.card) = .ok ((), fallen) ∧
      (s.topple id p.card).PutsAway id p.card fallen s' := by
  obtain ⟨fallen, buried, hoccur, hburied, hreapply⟩ := destroyed_of_run hp hdoomed hstanding h
  have hfallen := (goes_occur (goes_runner depth) _ _ (.pure ())).conduct hoccur
  have hdooms : s.Dooms id s := .inl rfl
  have htoppled := hdooms.deeds p.card
  have hwhole := Conduct.trans (.destroy hp hstanding hdooms hfallen hburied) (.reapply hreapply)
  have hrest : Deeds (s.topple id p.card) s' :=
    (hfallen.act.deeds.trans hburied.deeds).trans (deeds_of_tended (goes_reapply _ _ _ hreapply))
  refine ⟨?_, ?_, fallen, hoccur, ?_⟩
  · have hbegun := hdooms.falls_topple p.card id
    rw [if_pos rfl] at hbegun
    have hle : falls id (s.topple id p.card).trace ≤ falls id s'.trace :=
      hrest.steps.trace_suffix.sublist.countP_le
    cases hwhole.fells hs id with
    | never hsame => omega
    | once _ hone => exact hone
  · exact (Piece.upkept_sameFall.tended (goes_reapply _ _ _ hreapply)).get?_eq_none
      hburied.spares.2
  · have hfall : (s.topple id p.card).game.board.get? id = some p.fall :=
      (Board.get?_modify_self _ _ _).trans (congrArg _ hp)
    have hput := putsAway (htoppled.follows hs).1 hfall rfl hfallen hburied hreapply
    exact hput

end Play

/-! ### Commands -/

namespace Match
variable {m m' : Match} {past : List Happening}

/-- A stage that a command can come through. -/
def Leads (m : Match) (s : Stage) : Prop := ∃ first : Stage, m.Repeats first.game ∧ Deeds first s

theorem Leads.numbered (h : m.Leads s) (hm : m.Numbered) : s.game.Numbered := by
  obtain ⟨first, ⟨⟨n, hn⟩, -⟩, hdeeds⟩ := h
  have hfirst : first.game.Numbered := by
    rw [hn]
    exact hm.of_same rfl rfl
  exact (hdeeds.follows hfirst).1

/-- No object has fallen twice, and one that has fallen is off the board or falls still. -/
structure Felled (m : Match) (past : List Happening) : Prop where
  numbered : m.Numbered
  once : ∀ id, falls id past = 0 ∨ falls id past = 1 ∧ m.Fallen id

/-- What falls in between has not fallen before. -/
theorem Felled.fells {s s' : Stage} (hs : s.game.Felled (s.trace ++ past)) (h : Deeds s s')
    (hfells : ∀ id, s.Fells id s') : s'.game.Felled (s'.trace ++ past) := by
  refine ⟨(h.follows hs.numbered).1, fun id => ?_⟩
  have hbefore := hs.once id
  rw [falls_append] at hbefore ⊢
  cases hfells id with
  | never hsame hkept =>
    rw [hsame]
    exact hbefore.imp_right fun ⟨hone, hid⟩ => ⟨hone, hkept hid⟩
  | once hnot hone hid =>
    obtain hzero | ⟨-, hfallen⟩ := hbefore
    · exact .inr ⟨by omega, hid⟩
    · exact absurd hfallen hnot

theorem inherited_felled : Inherited Felled where
  start _ _ h := ⟨numbered_start h, fun _ => .inl rfl⟩
  repeats m m' past hrepeats hm := by
    obtain ⟨n, rfl⟩ := hrepeats.told
    refine ⟨hm.numbered.of_same rfl rfl, fun id => (hm.once id).imp_right fun ⟨hone, hid⟩ => ?_⟩
    exact ⟨hone, hid.known, hid.falling⟩
  errand _ _ _ h hcalm hs :=
    have hsteady := hcalm.steady (.of_toured h.toured)
    hs.fells (.single h.deed) fun id => hsteady.fells (.single h.deed) hs.numbered id
  conduct _ _ _ h hs := hs.fells h.act.deeds fun id => h.fells hs.numbered id

theorem Felled.le_one (hm : m.Felled past) (id : PieceId) : falls id past ≤ 1 := by
  obtain hzero | ⟨hone, -⟩ := hm.once id <;> omega

/-- No object is destroyed twice, in a command that is thrown away as well, and between commands
those that have been destroyed are off the board. Wherever a command comes to begin a destruction,
that is over with the object off the board and without another destruction of it, and the card of
the object has been put away once. -/
theorem Chronicle.destroyed_once (h : m.Chronicle past) :
    (∀ (depth : Nat) (c : Command) (m' : Match) (trace : List Happening),
      m.submitTraced depth c = .ok (m', trace) → ∀ id, falls id (trace ++ past) ≤ 1) ∧
    (∀ id, 0 < falls id past → m.board.get? id = none) ∧
    ∀ (s s' : Stage) (depth : Nat) (id : PieceId) (cause : Option Cause) (ctx : Context) (p : Piece),
      m.Leads s → s.game.board.get? id = some p → p.isDoomed = .ok true → p.falling = false →
      (Play.destroyIfDoomed (Play.runner depth) id cause ctx).run s = .ok ((), s') →
      falls id s'.trace = falls id s.trace + 1 ∧ s'.game.board.get? id = none ∧
      ∃ fallen, (Play.occur (Play.runner depth)
        ((Occurrence.ofPiece .afterDestroyed id).withCause cause) ctx (pure ())).run
          (s.topple id p.card) = .ok ((), fallen) ∧
        (s.topple id p.card).PutsAway id p.card fallen s' := by
  have hm := inherited_felled.chronicle h
  refine ⟨fun depth c m' trace hc id => ?_, fun id hid => ?_, ?_⟩
  · obtain ⟨first, last, hundergoes⟩ := undergoes hc
    have hlast := (inherited_felled.last hundergoes hm).le_one id
    rw [falls_append, ← falls_beats, ← hundergoes.beats, falls_beats, ← falls_append] at hlast
    exact hlast
  · cases hp : m.board.get? id with
    | none => rfl
    | some p =>
      obtain hzero | ⟨-, hfallen⟩ := hm.once id
      · omega
      · exact absurd ⟨p, hp, hfallen.falling p hp⟩ (h.reachable.spared id).2
  · intro s s' depth id cause ctx p hleads hp hdoomed hstanding hrun
    exact Play.destroyed (hleads.numbered hm.numbered) hp hdoomed hstanding hrun

/-- Blue's card destroys both cores, and blue's core has fallen once when it is destroyed alone. -/
theorem Chronicle.destroyed_once_solo :
    ∃ (m m' : Match) (past : List Happening) (s' : Stage), m.Chronicle [] ∧ m'.Chronicle past ∧
      falls 1 past = 1 ∧ m'.board.get? 1 = none ∧
      (Play.destroyIfDoomed (Play.runner 1) 1 none .empty).run
        ⟨m.changePiece 1 (·.condemn), []⟩ = .ok ((), s') ∧
      falls 1 s'.trace = 1 ∧ s'.game.board.get? 1 = none := by
  have hrun : ((MatchSetup.solo [.destroy (.piecesInPlay .any)]).start.holds fun m =>
      ((m.submitTraced maxDepth .playSolo).holds fun x =>
        (x.1.refusal.isNone && x.1.pending.isNone) && falls 1 x.2 == 1) &&
      (((m.changePiece 1 (·.condemn)).board.get? 1).any fun p => p.isDoomed.holds id && !p.falling) &&
      ((Play.destroyIfDoomed (Play.runner 1) 1 none .empty).run
        ⟨m.changePiece 1 (·.condemn), []⟩).holds fun _ => true) = true := by
    decide +kernel
  obtain ⟨m, hstart, hrun⟩ := Outcome.exists_of_holds hrun
  simp only [Bool.and_eq_true, Option.any_eq_true, Bool.not_eq_true'] at hrun
  obtain ⟨⟨hplay, p, hp, hdoomed, hstanding⟩, hcall⟩ := hrun
  obtain ⟨⟨m', past⟩, hplay, htold⟩ := Outcome.exists_of_holds hplay
  simp only [Bool.and_eq_true, Option.isNone_iff_eq_none, beq_iff_eq] at htold
  obtain ⟨_, hdoomed, rfl⟩ := Outcome.exists_of_holds hdoomed
  obtain ⟨⟨⟨⟩, s'⟩, hcall, -⟩ := Outcome.exists_of_holds hcall
  have hm : m.Chronicle [] := .start hstart
  have hm' := Chronicle.done hm hplay htold.1
  rw [List.append_nil] at hm'
  have hleads : m.Leads ⟨m.changePiece 1 (·.condemn), []⟩ :=
    ⟨⟨m, []⟩, ⟨⟨m.notices, rfl⟩, rfl⟩, .single (.mark 1 .condemn)⟩
  obtain ⟨-, -, hdestroys⟩ := hm.destroyed_once
  obtain ⟨-, hoff, -⟩ := hm'.destroyed_once
  obtain ⟨hfalls, hgone, -⟩ := hdestroys _ s' 1 1 none .empty p hleads hp hdoomed hstanding hcall
  refine ⟨m, m', past, s', hm, hm', htold.2, hoff 1 ?_, hcall, hfalls, hgone⟩
  rw [htold.2]
  exact Nat.one_pos

end Match
end HexDuel
