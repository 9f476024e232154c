import HexDuel.Proofs.Asking

/-!
Two resolutions side by side. When single changes and choices keep two matches alike, whole
resolutions do, step for step and with the same faults, until the two part; and what holds once
they have parted is to hold from then on.
-/

set_option autoImplicit false

namespace HexDuel

namespace Match
variable {g : Notices → Notices} {m m' : Match}

theorem Silent.mask_eq {f : Match → Match} (hf : Silent f) (h : m.mask g = m'.mask g) :
    (f m).mask g = (f m').mask g := by
  rw [hf.mask, hf.mask, h]

theorem board_eq_of_mask (h : m.mask g = m'.mask g) : m'.board = m.board := by
  have hboard : (m.mask g).board = (m'.mask g).board := congrArg _ h
  exact hboard.symm

theorem bare_eq_of_mask (h : m.mask g = m'.mask g) (hg : ∀ n, (g n).turn = n.turn) :
    m.bare = m'.bare := by
  have hbare : ∀ m : Match, (m.mask g).bare = m.bare := fun m => bare_withNotices m (hg m.notices)
  rw [← hbare m, h, hbare]

end Match

theorem Resolving.named_eq_of_mask {g : Notices → Notices} {m m' : Match}
    (h : m.mask g = m'.mask g) (c : Collection) (choice : Choice) :
    named m' c choice = named m c choice := by
  have hnamed : ∀ m : Match, named (m.mask g) c choice = named m c choice := by
    intro m
    cases choice <;> rfl
  rw [← hnamed m, h, hnamed]

/-- The relations `along`, before two stages part, and `apart`, after that; the flag tells whether
turns may end. -/
structure Simulation (asks : Bool) (along apart : Bool → Stage → Stage → Prop) : Prop where
  bare {ends : Bool} {s t : Stage} : along ends s t → s.game.bare = t.game.bare
  edit {ends : Bool} {s t : Stage} {f : Match → Match} : along ends s t → Edit f →
    along ends ⟨f s.game, s.trace⟩ ⟨f t.game, t.trace⟩
  walk {ends : Bool} {s t : Stage} (id : PieceId) (made : Int) (goal : Hex) : along ends s t →
    along ends ⟨s.game.changePiece id (·.walk made goal), s.trace⟩
      ⟨t.game.changePiece id (·.walk made goal), t.trace⟩
  note {ends : Bool} {s t : Stage} {h : Happening} : along ends s t → h.isPlain = true →
    along ends ⟨s.game, h :: s.trace⟩ ⟨t.game, h :: t.trace⟩
  number {ends : Bool} {s t : Stage} (n : Nat) : along ends s t →
    along ends ⟨{ s.game with lastId := n }, .numbered n :: s.trace⟩
      ⟨{ t.game with lastId := n }, .numbered n :: t.trace⟩
  consult {ends : Bool} {s t s' t' : Stage} {c : Collection} {ctx : Context}
    {x y : Collection × Context} : asks = true → along ends s t →
    Resolving.Consulted c ctx s x s' → Resolving.Consulted c ctx t y t' →
    x = y ∧ along ends s' t' ∨ apart ends s' t'
  leave {s t : Stage} (c : Color) : along true s t →
    along true ⟨(s.game.setSelection c .none).setStatus c "", .turnEnded c :: s.trace⟩
      ⟨(t.game.setSelection c .none).setStatus c "", .turnEnded c :: t.trace⟩
  handOver {s t : Stage} (c : Color) : along true s t →
    along true ⟨{ s.game with turn := c }, s.trace⟩ ⟨{ t.game with turn := c }, t.trace⟩
  ending {ends : Bool} {s t : Stage} : along ends s t →
    along true ⟨s.game, .executed .endTurn :: s.trace⟩ ⟨t.game, .executed .endTurn :: t.trace⟩ ∨
      apart true ⟨s.game, .executed .endTurn :: s.trace⟩ ⟨t.game, .executed .endTurn :: t.trace⟩
  ended {ends : Bool} {s t : Stage} : along true s t → along ends s t
  parted {ends : Bool} {s t s' t' : Stage} : apart ends s t → Steps asks ends s s' →
    Steps asks ends t t' → apart ends s' t'
  endedApart {ends : Bool} {s t : Stage} : apart true s t → apart ends s t

/-- How two runs can end: with the same fault, alike, or after they have parted. -/
inductive Paired (along apart : Stage → Stage → Prop) {α : Type} :
    Outcome (α × Stage) → Outcome (α × Stage) → Prop where
  | fault (f : Fault) : Paired along apart (.error f) (.error f)
  | along {s t : Stage} (a : α) : along s t → Paired along apart (.ok (a, s)) (.ok (a, t))
  | apart {r q : Outcome (α × Stage)} {s t : Stage} : apart s t →
    (∀ a s' b t', r = .ok (a, s') → q = .ok (b, t') → apart s' t') → Paired along apart r q

namespace Paired
variable {along apart along' apart' : Stage → Stage → Prop} {α β : Type}

theorem mono {r q : Outcome (α × Stage)} (h : Paired along apart r q)
    (halong : ∀ s t, along s t → along' s t) (hapart : ∀ s t, apart s t → apart' s t) :
    Paired along' apart' r q := by
  cases h with
  | fault f => exact .fault f
  | along a hst => exact .along a (halong _ _ hst)
  | apart hst hend =>
    refine .apart (hapart _ _ hst) ?_
    exact fun a s' b t' hr hq => hapart _ _ (hend a s' b t' hr hq)

theorem bind {p : Play α} {k : α → Play β} {s t : Stage}
    (h : Paired along apart (p.run s) (p.run t))
    (halong : ∀ a s' t', p.run s = .ok (a, s') → along s' t' →
      Paired along apart ((k a).run s') ((k a).run t'))
    (hapart : ∀ a b s' t' x y s'' t'', p.run s = .ok (a, s') → p.run t = .ok (b, t') →
      apart s' t' → (k a).run s' = .ok (x, s'') → (k b).run t' = .ok (y, t'') → apart s'' t'') :
    Paired along apart ((p >>= k).run s) ((p >>= k).run t) := by
  rw [StateT.run_bind, StateT.run_bind]
  generalize hr : p.run s = r at *
  generalize hq : p.run t = q at *
  cases h with
  | fault f => exact .fault f
  | along a hst => exact halong a _ _ rfl hst
  | apart hst hend =>
    refine .apart hst ?_
    intro x s'' y t'' hx hy
    cases r with
    | error f => cases hx
    | ok r =>
      cases q with
      | error f => cases hy
      | ok q => exact hapart _ _ _ _ x y s'' t'' rfl rfl (hend _ _ _ _ rfl rfl) hx hy

end Paired

namespace Resolving

theorem consult_total (c : Collection) (ctx : Context) (s : Stage) :
    ∃ x s', ((consult c).run ctx).run s = .ok (x, s') := by
  rw [run_consult]
  split
  · exact ⟨_, _, rfl⟩
  · rw [run_ask]
    exact ⟨_, _, rfl⟩

end Resolving

namespace Play
variable {asks : Bool} {along apart : Bool → Stage → Stage → Prop}

theorem paired_freshId (hsim : Simulation asks along apart) {ends : Bool} {s t : Stage}
    (hst : along ends s t) : Paired (along ends) (apart ends) (freshId.run s) (freshId.run t) := by
  have hlast : s.game.bare.lastId = t.game.bare.lastId := congrArg _ (hsim.bare hst)
  change s.game.lastId = t.game.lastId at hlast
  rw [run_freshId, run_freshId, ← hlast]
  split
  · exact .along _ (hsim.number _ hst)
  · exact .fault _

/-- Where an object may go and how far it went is read off the board, which both stages share. -/
theorem paired_walk (hsim : Simulation asks along apart) {ends : Bool} {s t : Stage}
    (hst : along ends s t) (id : PieceId) (start goal : Hex) :
    Paired (along ends) (apart ends) ((Attempt.walk id start goal).run s)
      ((Attempt.walk id start goal).run t) := by
  have hboard : s.game.bare.board = t.game.bare.board := congrArg _ (hsim.bare hst)
  change s.game.board = t.game.board at hboard
  have hhexes : t.game.movementHexes start = s.game.movementHexes start := by
    simp only [Match.movementHexes, Match.reachable, hboard]
  rw [run_walk, run_walk, hhexes, ← hboard]
  split
  · exact .fault _
  · split
    · split
      · exact .along true hst
      · split
        · exact .fault _
        · exact .along true (hsim.walk id _ goal hst)
    · exact .along false hst

/-- Two choices come to the same and leave the stages alike, or the stages part there. -/
theorem paired_consult (hsim : Simulation asks along apart) (hasks : asks = true) {ends : Bool}
    {s t : Stage} (hst : along ends s t) (c : Collection) (ctx : Context) :
    Paired (along ends) (apart ends) (((Resolving.consult c).run ctx).run s)
      (((Resolving.consult c).run ctx).run t) := by
  obtain ⟨x, s', hs⟩ := Resolving.consult_total c ctx s
  obtain ⟨y, t', ht⟩ := Resolving.consult_total c ctx t
  rw [hs, ht]
  obtain ⟨rfl, hst'⟩ | hapart :=
    hsim.consult hasks hst (Resolving.consulted hs) (Resolving.consulted ht)
  · exact .along x hst'
  · refine .apart hapart ?_
    intro a s₁ b t₁ hs₁ ht₁
    cases hs₁
    cases ht₁
    exact hapart

/-- Two runs of a built computation stay side by side. -/
theorem Built.paired (hsim : Simulation asks along apart) {ends : Bool} {α : Type} {p : Play α}
    (hp : Built asks ends p) {s t : Stage} (hst : along ends s t) :
    Paired (along ends) (apart ends) (p.run s) (p.run t) := by
  induction hp generalizing s t with
  | lift x =>
    cases x with
    | error f => exact .fault f
    | ok a => exact .along a hst
  | bind _ hk ihp ihk =>
    -- Runs that have parted may come to different values: what follows is known by its steps only.
    refine (ihp hst).bind (fun a s' t' hrun hst' => ihk a ⟨s, s', hrun⟩ hst') ?_
    intro a b s' t' x y s'' t'' hs ht hapart hx hy
    exact hsim.parted hapart ((hk a ⟨s, s', hs⟩).steps hx) ((hk b ⟨t, t', ht⟩).steps hy)
  | @look _ _ k hbare _ ih =>
    -- What comes next goes by the bare match, and both stages have the same.
    have hsame : (k t.game).run t = (k s.game).run t := by
      rw [hbare t.game, ← hsim.bare hst, ← hbare s.game]
    have hpair := ih s.game hst
    rw [← hsame] at hpair
    exact hpair
  | edit hf => exact .along () (hsim.edit hst hf)
  | note n hplain => exact .along () (hsim.note hst hplain)
  | number => exact paired_freshId hsim hst
  | walk id start goal => exact paired_walk hsim hst id start goal
  | consult c ctx hasks => exact paired_consult hsim hasks hst c ctx
  | leave c => exact .along () (hsim.leave c hst)
  | handOver c => exact .along () (hsim.handOver c hst)
  | ending hp ih =>
    obtain hst' | hapart := hsim.ending hst
    · exact (ih hst').mono (fun _ _ h => hsim.ended h) fun _ _ h => hsim.endedApart h
    · refine .apart (hsim.endedApart hapart) ?_
      intro a s' b t' hs ht
      exact hsim.endedApart (hsim.parted hapart (hp.steps hs) (hp.steps ht))

end Play
end HexDuel
