import HexDuel.Proofs.Simulation

/-!
Matches that are alike. Where the rules find the same in both matches and every change that a
command makes keeps them alike, both take every command the same way: they fail with the same
fault, or the same happens in both and they end alike.
-/

set_option autoImplicit false

namespace HexDuel

namespace Outcome
variable {α β γ δ : Type} {R R' : α → β → Prop} {S : γ → δ → Prop}

/-- Both fail with the same fault, or both succeed with values in the relation. -/
inductive Agree (R : α → β → Prop) : Outcome α → Outcome β → Prop where
  | ok {a : α} {b : β} : R a b → Agree R (.ok a) (.ok b)
  | error (f : Fault) : Agree R (.error f) (.error f)

namespace Agree
variable {x : Outcome α} {y : Outcome β}

theorem mono (h : Agree R x y) (hR : ∀ a b, x = .ok a → R a b → R' a b) : Agree R' x y := by
  cases h with
  | ok hab => exact .ok (hR _ _ rfl hab)
  | error f => exact .error f

theorem bind {k : α → Outcome γ} {l : β → Outcome δ} (h : Agree R x y)
    (hk : ∀ a b, x = .ok a → R a b → Agree S (k a) (l b)) : Agree S (x >>= k) (y >>= l) := by
  cases h with
  | ok hab => exact hk _ _ rfl hab
  | error f => exact .error f

theorem map_right {f : β → γ} {S : α → γ → Prop} (h : Agree R x y)
    (hS : ∀ a b, R a b → S a (f b)) : Agree S x (y.map f) := by
  cases h with
  | ok hab => exact .ok (hS _ _ hab)
  | error f => exact .error f

theorem map_eq {f : α → γ} {g : β → δ} {r : γ → δ} (h : Agree R x y)
    (hR : ∀ a b, R a b → g b = r (f a)) : y.map g = (x.map f).map r := by
  cases h with
  | ok hab => exact congrArg Except.ok (hR _ _ hab)
  | error f => rfl

theorem ok_left {a : α} (h : Agree R (.ok a) y) : ∃ b, y = .ok b ∧ R a b := by
  cases h with
  | ok hab => exact ⟨_, rfl, hab⟩

theorem ok_right {b : β} (h : Agree R x (.ok b)) : ∃ a, x = .ok a ∧ R a b := by
  cases h with
  | ok hab => exact ⟨_, rfl, hab⟩

end Agree
end Outcome

namespace Match

/-- What a command writes: changes that the rules make, and what the match tells. -/
inductive Change : (Match → Match) → Prop where
  | edit {f : Match → Match} : Edit f → Change f
  | board (f : Board → Board) : Change (·.changeBoard f)
  | lastId (n : Nat) : Change fun m => { m with lastId := n }
  | turn (c : Color) : Change fun m => { m with turn := c }
  | select (c : Color) (x : Selection) : Change (·.setSelection c x)
  | status (c : Color) (text : String) : Change (·.setStatus c text)
  | pending (p : Option Prompt) : Change fun m => { m with pending := p }
  | refusal (r : Option Rejection) : Change fun m => { m with refusal := r }

end Match

/-- A relation of matches that no rule tells apart, kept by all that commands write. -/
structure Likeness (like : Match → Match → Prop) : Prop where
  bare {m m' : Match} : like m m' → m.bare = m'.bare
  told {m m' : Match} : like m m' → m.notices.hush = m'.notices.hush
  change {m m' : Match} {f : Match → Match} : Match.Change f → like m m' → like (f m) (f m')

/-- The same has happened, and the matches are alike. -/
structure Stage.Like (like : Match → Match → Prop) (s t : Stage) : Prop where
  trace : s.trace = t.trace
  game : like s.game t.game

theorem Stage.Like.noted {like : Match → Match → Prop} {s t : Stage} (h : s.Like like t)
    (n : Happening) {m m' : Match} (hm : like m m') :
    Stage.Like like ⟨m, n :: s.trace⟩ ⟨m', n :: t.trace⟩ := ⟨congrArg (n :: ·) h.trace, hm⟩

namespace Likeness
variable {like : Match → Match → Prop} {m m' : Match} {player : Color} {depth : Nat}

/-! ### What is the same -/

theorem board (hlike : Likeness like) (h : like m m') : m'.board = m.board := by
  have hboard : m.bare.board = m'.bare.board := congrArg _ (hlike.bare h)
  exact hboard.symm

theorem isOver (hlike : Likeness like) (h : like m m') : m'.isOver = m.isOver := by
  have hover : m.bare.isOver = m'.bare.isOver := congrArg _ (hlike.bare h)
  exact hover.symm

theorem turn (hlike : Likeness like) (h : like m m') : m'.turn = m.turn := by
  have hturn : m.notices.hush.turn = m'.notices.hush.turn := congrArg _ (hlike.told h)
  exact hturn.symm

theorem pending (hlike : Likeness like) (h : like m m') : m'.pending = m.pending := by
  have hpending : m.notices.hush.pending = m'.notices.hush.pending := congrArg _ (hlike.told h)
  exact hpending.symm

theorem refusal (hlike : Likeness like) (h : like m m') : m'.refusal = m.refusal := by
  have hrefusal : m.notices.hush.refusal = m'.notices.hush.refusal := congrArg _ (hlike.told h)
  exact hrefusal.symm

theorem selection (hlike : Likeness like) (h : like m m') (c : Color) :
    (m'.seat c).selection = (m.seat c).selection := by
  have hselection : m.notices.hush.selections.get c = m'.notices.hush.selections.get c :=
    congrArg (fun n : Notices => n.selections.get c) (hlike.told h)
  exact (Match.selection_notices m' c).symm.trans
    (hselection.symm.trans (Match.selection_notices m c))

theorem named (hlike : Likeness like) (h : like m m') (c : Collection) (choice : Choice) :
    Resolving.named m' c choice = Resolving.named m c choice := by
  have hnamed : ∀ m : Match, Resolving.named m.bare c choice = Resolving.named m c choice := by
    intro m
    cases choice <;> rfl
  rw [← hnamed m, hlike.bare h, hnamed]

/-! ### What is told -/

theorem select (hlike : Likeness like) (h : like m m') (c : Color) (x : Selection) :
    like (m.setSelection c x) (m'.setSelection c x) := hlike.change (.select c x) h

theorem heard (hlike : Likeness like) (h : like m m') : like m.heard m'.heard :=
  hlike.change (.refusal none) h

theorem reject (hlike : Likeness like) (h : like m m') (player : Color) (r : Rejection) :
    like (m.reject player r) (m'.reject player r) :=
  hlike.change (.refusal (some r)) (hlike.change (.status player r.message) h)

theorem release (hlike : Likeness like) (h : like m m') (player : Color) :
    like (m.release player) (m'.release player) :=
  hlike.change (.pending none) (hlike.change (.status player "") (hlike.select h player .none))

theorem abandon (hlike : Likeness like) (h : like m m') (player : Color) (r : Rejection) :
    like (m.abandon player r) (m'.abandon player r) := by
  unfold Match.abandon
  rw [hlike.pending h]
  split
  · exact hlike.reject h player r
  · exact hlike.reject (hlike.release h player) player r

theorem suspend (hlike : Likeness like) (h : like m m') (player : Color)
    (resumption : Resumption) (offered : Selection) (chosen : List Choice) :
    like (m.suspend player resumption offered chosen)
      (m'.suspend player resumption offered chosen) :=
  hlike.change (.pending (some ⟨player, resumption⟩))
    (hlike.change (.status player "Choose a target") (hlike.select h player _))

/-! ### Resolutions -/

theorem consulted (hlike : Likeness like) {s t s' t' : Stage} (h : s.Like like t)
    {c : Collection} {ctx : Context} {x y : Collection × Context}
    (hs : Resolving.Consulted c ctx s x s') (ht : Resolving.Consulted c ctx t y t') :
    x = y ∧ s'.Like like t' := by
  have hturn := hlike.turn h.game
  have hboard := hlike.board h.game
  have hsel := hlike.selection h.game s.game.turn
  -- Both go by the record of the same player, so the two cannot take different ways.
  cases hs with
  | answered choice later hchosen =>
    cases ht with
    | answered choice' later' hchosen' =>
      rw [hturn, hsel, hchosen] at hchosen'
      cases hchosen'
      rw [hlike.named h.game, hturn, hboard, hsel]
      exact ⟨rfl, h.noted _ (hlike.select h.game _ _)⟩
    | _ => simp_all
  | waiting hchosen hchoosing =>
    cases ht with
    | waiting => exact ⟨rfl, h⟩
    | _ => simp_all
  | refused hchosen hchoosing hhexes hcards =>
    cases ht with
    | refused => exact ⟨rfl, h.trace, hlike.change (.refusal (some .noValidTargets)) h.game⟩
    | _ => simp_all
  | suspended hchosen hchoosing hoffer =>
    cases ht with
    | suspended =>
      rw [hturn, hboard]
      exact ⟨rfl, h.noted _ (hlike.select h.game _ _)⟩
    | _ => simp_all

/-- Alike matches take a resolution the same way, and never part. -/
theorem simulation (hlike : Likeness like) (asks : Bool) :
    Simulation asks (fun _ => Stage.Like like) fun _ _ _ => False where
  bare h := hlike.bare h.game
  edit h hf := ⟨h.trace, hlike.change (.edit hf) h.game⟩
  walk id made goal h :=
    ⟨h.trace, hlike.change (.board (·.modify id (·.walk made goal))) h.game⟩
  note h _ := h.noted _ h.game
  number n h := h.noted _ (hlike.change (.lastId n) h.game)
  consult _ h hs ht := .inl (hlike.consulted h hs ht)
  leave c h := h.noted _ (hlike.change (.status c "") (hlike.select h.game c .none))
  handOver c h := ⟨h.trace, hlike.change (.turn c) h.game⟩
  ending h := .inl (h.noted _ h.game)
  ended h := h
  parted h := h.elim
  endedApart h := h

theorem built (hlike : Likeness like) {asks ends : Bool} {α : Type} {p : Play α}
    (hp : Play.Built asks ends p) {s t : Stage} (h : s.Like like t) :
    Outcome.Agree (fun x y => x.1 = y.1 ∧ x.2.Like like y.2) (p.run s) (p.run t) := by
  have hpair := hp.paired (hlike.simulation asks) h
  generalize p.run s = r at hpair ⊢
  generalize p.run t = q at hpair ⊢
  cases hpair with
  | fault f => exact .error f
  | along a hst => exact .ok ⟨rfl, hst⟩
  | apart h => exact h.elim

/-! ### Commands -/

/-- What commands come to: the same has happened, and the matches are alike. -/
def Ends (like : Match → Match → Prop) (x y : Match × List Happening) : Prop :=
  like x.1 y.1 ∧ x.2 = y.2

theorem attempt (hlike : Likeness like) (h : like m m') (resumption : Resumption)
    (chosen : List Choice) :
    Outcome.Agree (Ends like) (m.attempt depth player resumption chosen)
      (m'.attempt depth player resumption chosen) := by
  have hperform := (Attempt.built_perform (Play.built_runner true depth) player resumption).1
  have hsettle : Play.Built true false (Play.settle (Play.runner depth)) :=
    Play.built_settle (Play.built_runner true depth)
  have hstart : (m.scratch player chosen).Like like (m'.scratch player chosen) :=
    ⟨rfl, hlike.select h player (.answering chosen)⟩
  refine (hlike.built hperform hstart).bind ?_
  rintro ⟨x, s⟩ ⟨y, t⟩ - ⟨hxy, hst⟩
  cases hxy
  have hrefusal := hlike.refusal hst.game
  have hselection := hlike.selection hst.game player
  dsimp only
  rw [hrefusal, hselection]
  cases x with
  | error r => exact .ok ⟨hlike.abandon h player r, hst.trace⟩
  | ok =>
    cases s.game.refusal with
    | some r => exact .ok ⟨hlike.abandon h player r, hst.trace⟩
    | none =>
      dsimp only
      split
      · exact .ok ⟨hlike.suspend h player resumption _ chosen, hst.trace⟩
      · refine (hlike.built hsettle hst).bind ?_
        rintro ⟨_, s'⟩ ⟨_, t'⟩ - ⟨-, hst'⟩
        exact .ok ⟨hlike.release hst'.game player, hst'.trace⟩

theorem endOfTurn (hlike : Likeness like) (h : like m m') :
    Outcome.Agree (Ends like) (m.endOfTurn depth) (m'.endOfTurn depth) := by
  have hrun := Play.built_runner true depth
  have hbuilt : Play.Built true true
      (do Play.passTurn (Play.runner depth); Play.settle (Play.runner depth)) :=
    (Play.built_passTurn hrun).next fun _ => Play.built_settle hrun
  have hstart : Stage.Like like ⟨m, []⟩ ⟨m', []⟩ := ⟨rfl, h⟩
  refine (hlike.built hbuilt hstart).bind ?_
  rintro ⟨_, s⟩ ⟨_, t⟩ - ⟨-, hst⟩
  exact .ok ⟨hst.game, hst.trace⟩

/-- Alike matches take a command the same way, whatever the last refusal was. -/
theorem submitTraced (hlike : Likeness like) (h : like m.heard m'.heard) (c : Command) :
    Outcome.Agree (Ends like) (m.submitTraced depth c) (m'.submitTraced depth c) := by
  have hreject : ∀ r : Rejection,
      Outcome.Agree (Ends like) (.ok (m.heard.reject c.player r, []))
        (.ok (m'.heard.reject c.player r, [])) :=
    fun r => .ok ⟨hlike.reject h c.player r, rfl⟩
  unfold Match.submitTraced
  dsimp only
  rw [hlike.isOver h, hlike.pending h, hlike.turn h]
  split
  · exact hreject _
  · split
    · split
      · exact hreject _
      · rw [hlike.selection h]
        split
        · exact hreject _
        · split
          · exact hreject _
          · exact hlike.attempt h _ _
    · split
      · exact hreject _
      · split
        · exact hreject _
        · split
          · exact hlike.attempt h _ _
          · exact hlike.endOfTurn h

end Likeness
end HexDuel
