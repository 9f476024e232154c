import HexDuel.Command

/-!
What a match tells the players: whose turn it is, the prompt, the refusal, the targets on offer and
the status lines. A change is silent when it neither goes by any of this nor touches it. The
changes that resolutions are made of are silent, one by one.
-/

set_option autoImplicit false

namespace HexDuel

structure Notices where
  turn : Color
  pending : Option Prompt
  refusal : Option Rejection
  selections : PerSide Selection
  statuses : PerSide String

namespace Notices

/-- Without status lines. -/
def hush (n : Notices) : Notices := { n with statuses := ⟨"", ""⟩ }

/-- Whose turn it is, and nothing else. -/
def blank (n : Notices) : Notices := ⟨n.turn, none, none, ⟨.none, .none⟩, ⟨"", ""⟩⟩

end Notices

/-- The seat with another selection and status line. -/
def Seat.tell (s : Seat) (selection : Selection) (status : String) : Seat :=
  { s with selection := selection, status := status }

namespace Match

def notices (m : Match) : Notices where
  turn := m.turn
  pending := m.pending
  refusal := m.refusal
  selections := ⟨m.seats.blue.selection, m.seats.orange.selection⟩
  statuses := ⟨m.seats.blue.status, m.seats.orange.status⟩

def withNotices (m : Match) (n : Notices) : Match :=
  { m with
    turn := n.turn
    pending := n.pending
    refusal := n.refusal
    seats := ⟨m.seats.blue.tell n.selections.blue n.statuses.blue,
      m.seats.orange.tell n.selections.orange n.statuses.orange⟩ }

@[simp] theorem notices_withNotices (m : Match) (n : Notices) : (m.withNotices n).notices = n := rfl

@[simp] theorem withNotices_notices (m : Match) : m.withNotices m.notices = m := rfl

theorem seat_withNotices (m : Match) (n : Notices) (c : Color) :
    (m.withNotices n).seat c = (m.seat c).tell (n.selections.get c) (n.statuses.get c) := by
  cases c <;> rfl

theorem selection_notices (m : Match) (c : Color) :
    m.notices.selections.get c = (m.seat c).selection := by cases c <;> rfl

/-- The change goes by nothing that the match tells, and leaves all of it as it is. -/
def Silent (f : Match → Match) : Prop := ∀ m n, f (m.withNotices n) = (f m).withNotices n

theorem Silent.notices {f : Match → Match} (h : Silent f) (m : Match) :
    (f m).notices = m.notices := by
  have hm : f m = (f m).withNotices m.notices := by
    simpa using h m m.notices
  rw [hm, notices_withNotices]

theorem Silent.turn {f : Match → Match} (h : Silent f) (m : Match) : (f m).turn = m.turn :=
  congrArg Notices.turn (h.notices m)

theorem Silent.pending {f : Match → Match} (h : Silent f) (m : Match) :
    (f m).pending = m.pending := congrArg Notices.pending (h.notices m)

theorem Silent.refusal {f : Match → Match} (h : Silent f) (m : Match) :
    (f m).refusal = m.refusal := congrArg Notices.refusal (h.notices m)

theorem Silent.selection {f : Match → Match} (h : Silent f) (m : Match) (c : Color) :
    ((f m).seat c).selection = (m.seat c).selection := by
  rw [← selection_notices, h.notices, selection_notices]

/-- The match with other notices, made of its own. -/
def mask (g : Notices → Notices) (m : Match) : Match := m.withNotices (g m.notices)

theorem Silent.mask {f : Match → Match} (h : Silent f) (g : Notices → Notices) (m : Match) :
    (f m).mask g = f (m.mask g) := by
  unfold Match.mask
  rw [h, h.notices]

theorem Silent.comp {f g : Match → Match} (hf : Silent f) (hg : Silent g) :
    Silent fun m => g (f m) := fun m n => (congrArg g (hf m n)).trans (hg (f m) n)

theorem Silent.foldl {α : Type} {f : α → Match → Match} (hf : ∀ a, Silent (f a)) (as : List α) :
    Silent fun m => as.foldl (fun m a => f a m) m := by
  induction as with
  | nil => exact fun _ _ => rfl
  | cons a as ih => exact (hf a).comp ih

theorem silent_changeSeat (c : Color) {f : Seat → Seat}
    (hf : ∀ s selection status, f (s.tell selection status) = (f s).tell selection status) :
    Silent (·.changeSeat c f) := by
  intro m n
  cases c <;> simp [changeSeat, withNotices, PerSide.modify, hf]

theorem silent_changeBoard (f : Board → Board) : Silent (·.changeBoard f) := fun _ _ => rfl

theorem silent_changePiece (id : PieceId) (f : Piece → Piece) : Silent (·.changePiece id f) :=
  fun _ _ => rfl

theorem silent_changeHand (c : Color) (f : List Card → List Card) :
    Silent (·.changeSeat c fun s => { s with hand := f s.hand }) :=
  silent_changeSeat c fun _ _ _ => rfl

theorem silent_discard (c : Color) (card : Card) : Silent (·.discard c card) :=
  silent_changeSeat c fun _ _ _ => rfl

theorem silent_addLog (c : Option Color) (text : String) (cards : List Card) :
    Silent (·.addLog c text cards) := fun _ _ => by
  cases c <;> rfl

@[simp] theorem holderOf?_withNotices (m : Match) (n : Notices) (id : CardId) :
    (m.withNotices n).holderOf? id = m.holderOf? id := by
  simp [holderOf?, Color.all, seat_withNotices, Seat.tell, Seat.cardInHand?]

@[simp] theorem topCard?_withNotices (m : Match) (n : Notices) (c : Color) :
    (m.withNotices n).topCard? c = m.topCard? c := by
  simp [topCard?, seat_withNotices, Seat.tell]

theorem silent_withdraw (a : Passive) : Silent (·.withdraw a) := by
  intro m n
  cases h : a.effect <;> simp [withdraw, h] <;> rfl

theorem silent_withdrawApplied (a : Passive) : Silent (·.withdrawApplied a) := by
  intro m n
  unfold withdrawApplied
  split
  · exact silent_withdraw a m n
  · rfl

theorem silent_withdrawAll (as : List Passive) : Silent (·.withdrawAll as) :=
  Silent.foldl silent_withdrawApplied as

theorem silent_tickDurations : Silent (·.tickDurations) := fun m n =>
  silent_withdrawAll _ (m.changeBoard (·.mapPieces (·.countDown))) n

theorem silent_dropDisabled : Silent (·.dropDisabled) := fun m n =>
  silent_withdrawAll _ (m.changeBoard (·.mapPieces (·.dropDisabled))) n

theorem silent_dropTop (c : Color) :
    Silent (·.changeSeat c fun s => { s with deck := s.deck.tail }) :=
  silent_changeSeat c fun _ _ _ => rfl

theorem silent_takeTop (c : Color) : Silent (·.takeTop c) := by
  intro m n
  have hformat : ((m.withNotices n).changeSeat c fun s => { s with deck := s.deck.tail }).format =
      (m.changeSeat c fun s => { s with deck := s.deck.tail }).format := rfl
  unfold takeTop
  simp only [hformat]
  split
  · exact silent_dropTop c m n
  · exact (silent_dropTop c).comp (silent_dropTop c.opponent) m n

theorem silent_drawTop (c : Color) : Silent (·.drawTop c) := by
  intro m n
  simp only [drawTop, topCard?_withNotices]
  cases m.topCard? c with
  | none => rfl
  | some card =>
    exact (silent_takeTop c).comp (silent_changeHand c (· ++ [card])) m n

theorem silent_burnTop (c : Color) : Silent (·.burnTop c) := by
  intro m n
  simp only [burnTop, topCard?_withNotices]
  cases m.topCard? c with
  | none => rfl
  | some card => exact (silent_takeTop c).comp (silent_discard c card) m n

theorem silent_drawTimes (c : Color) (count : Nat) : Silent (Play.drawTimes c count) := by
  induction count with
  | zero => exact fun _ _ => rfl
  | succ count ih =>
    intro m n
    simp only [Play.drawTimes, topCard?_withNotices]
    split
    · rfl
    · exact (silent_drawTop c).comp ih m n

theorem silent_burnTimes (c : Color) (count : Nat) : Silent (Play.burnTimes c count) := by
  induction count with
  | zero => exact fun _ _ => rfl
  | succ count ih =>
    intro m n
    simp only [Play.burnTimes, topCard?_withNotices]
    split
    · rfl
    · exact (((silent_burnTop c).comp (silent_addLog _ _ [])).comp ih) m n

theorem silent_deal (c : Color) (count : Nat) : Silent (Play.deal c count) := by
  intro m n
  have hroom : Play.room (m.withNotices n) c = Play.room m c := by
    unfold Play.room
    rw [seat_withNotices]
    rfl
  simp only [Play.deal, hroom]
  exact ((silent_drawTimes c _).comp (silent_burnTimes c _)) m n

theorem silent_giveBack (c : Color) (card : Card) : Silent (Play.giveBack c card) := by
  intro m n
  have hhand : ((m.withNotices n).seat c).hand = (m.seat c).hand := by
    rw [seat_withNotices]; rfl
  have hlimits : (m.withNotices n).limits = m.limits := rfl
  simp only [Play.giveBack, hhand, hlimits]
  split
  · exact ((silent_discard c card).comp (silent_addLog _ _ [])) m n
  · exact silent_changeHand c (· ++ [card]) m n

theorem silent_checkVictory : Silent (·.checkVictory) := by
  intro m n
  have hwinner : (m.withNotices n).winner = m.winner := rfl
  have hboard : (m.withNotices n).board = m.board := rfl
  simp only [checkVictory, hwinner, hboard]
  cases m.winner with
  | some c => rfl
  | none =>
    cases victor m.board with
    | none => rfl
    | some c =>
      have hview : (m.withNotices n).viewpoint = m.viewpoint := rfl
      simp only [declareWinner, hview]
      split <;> rfl

end Match
end HexDuel
