import HexDuel.Proofs.Edit

/-!
What resolutions are built from. A computation is built when it is made of faults, of looks at the
match, of single changes (`Edit`), of numbers handed out, of walks, of choices and of turns that
end, put together in sequence. What holds of the pieces and of their sequences holds of everything
that is built; that the whole interpreter is built is shown once.
-/

set_option autoImplicit false

namespace HexDuel

namespace Match

/-- What the rules go by: not what the match tells the players, nor how it looks and sounds. -/
def bare (m : Match) : Match :=
  { m.withNotices ⟨m.turn, none, none, ⟨.none, .none⟩, ⟨"", ""⟩⟩ with
    usernames := ⟨"", ""⟩
    viewpoint := .blue
    log := []
    sounds := []
    animations := [] }

theorem bare_withNotices (m : Match) {n : Notices} (h : n.turn = m.turn) :
    (m.withNotices n).bare = m.bare := by
  have hturn : (m.withNotices n).turn = m.turn := h
  simp only [bare, hturn]
  rfl

theorem seat_bare (m : Match) (c : Color) : m.bare.seat c = (m.seat c).tell .none "" := by
  cases c <;> rfl

end Match

/-- Only by the action that says so does a turn end inside a resolution. -/
def Happening.endsTurn : Happening → Bool
  | .executed .endTurn => true
  | _ => false

/-- Notes that stand for themselves: all but those that go with a change of the match. -/
def Happening.isPlain : Happening → Bool
  | .executed .endTurn | .numbered _ | .suspended .. | .answered .. | .turnEnded _ => false
  | _ => true

namespace Play
variable {α β : Type}

/-- The computation can end with that value. -/
def Yields (p : Play α) (a : α) : Prop := ∃ st st', p.run st = .ok (a, st')

/-- `asks` tells whether a player can be asked, and the second flag whether turns may end: outside
of the action that ends the turn they do not, unless the player has passed. -/
inductive Built (asks : Bool) : Bool → {α : Type} → Play α → Prop where
  | lift {ends : Bool} {α : Type} (x : Outcome α) : Built asks ends (liftM x : Play α)
  | bind {ends : Bool} {α β : Type} {p : Play α} {k : α → Play β} :
    Built asks ends p → (∀ a, p.Yields a → Built asks ends (k a)) → Built asks ends (p >>= k)
  | look {ends : Bool} {α : Type} {k : Match → Play α} :
    (∀ m, k m = k m.bare) → (∀ m, Built asks ends (k m)) → Built asks ends (game >>= k)
  | edit {ends : Bool} {f : Match → Match} : Edit f → Built asks ends (change f)
  | note {ends : Bool} (h : Happening) : h.isPlain = true → Built asks ends (note h)
  | number {ends : Bool} : Built asks ends freshId
  | walk {ends : Bool} (id : PieceId) (start goal : Hex) :
    Built asks ends (Attempt.walk id start goal)
  | consult {ends : Bool} (candidates : Collection) (ctx : Context) :
    asks = true → Built asks ends ((Resolving.consult candidates).run ctx)
  | leave (c : Color) : Built asks true (leave c)
  | handOver (c : Color) : Built asks true (change fun m => { m with turn := c })
  | ending {ends : Bool} {p : Play Unit} :
    Built asks true p → Built asks ends (Play.note (.executed .endTurn) >>= fun _ => p)

variable {asks ends : Bool}

namespace Built

theorem pure (a : α) : Built asks ends (Pure.pure a : Play α) := lift (.ok a)

theorem fail (f : Fault) : Built asks ends (throw f : Play α) := lift (.error f)

theorem next {p : Play α} {k : α → Play β} (hp : Built asks ends p)
    (hk : ∀ a, Built asks ends (k a)) : Built asks ends (p >>= k) := hp.bind fun a _ => hk a

theorem look' {f : Match → α} (h : ∀ m, f m = f m.bare) :
    Built asks ends (game >>= fun m => Pure.pure (f m)) :=
  look (fun m => congrArg Pure.pure (h m)) fun m => pure (f m)

theorem forM {as : List α} {k : α → Play Unit} (hk : ∀ a, Built asks ends (k a)) :
    Built asks ends (as.forM k) := by
  induction as with
  | nil => exact pure ()
  | cons a as ih => exact (hk a).next fun _ => ih

theorem foldl {f : α → Match → Match} (hf : ∀ a, Edit (f a)) (as : List α) :
    Built asks ends (change fun m => as.foldl (fun m a => f a m) m) := by
  induction as with
  | nil => exact pure ()
  | cons a as ih => exact (edit (hf a)).next fun _ => ih

end Built

theorem run_bind {p : Play α} {k : α → Play β} {b : β} {s s' : Stage}
    (h : (p >>= k).run s = .ok (b, s')) :
    ∃ a s₁, p.run s = .ok (a, s₁) ∧ (k a).run s₁ = .ok (b, s') := by
  rw [StateT.run_bind] at h
  cases hp : p.run s with
  | error f => rw [hp] at h; cases h
  | ok r =>
    rw [hp] at h
    exact ⟨r.1, r.2, rfl, h⟩

/-- What follows a look at the match is a run from the same stage. -/
theorem of_run_look {k : Match → Play β} {x : β × Stage} {s : Stage}
    (h : (game >>= k).run s = .ok x) : (k s.game).run s = .ok x := h

theorem of_run_piece? {id : PieceId} {k : Option Piece → Play β} {x : β × Stage} {s : Stage}
    (h : (piece? id >>= k).run s = .ok x) : (k (s.game.board.get? id)).run s = .ok x := h

theorem Yields.bind {p : Play α} {k : α → Play β} {b : β} (h : (p >>= k).Yields b) :
    ∃ a, p.Yields a ∧ (k a).Yields b := by
  obtain ⟨st, st', h⟩ := h
  obtain ⟨a, st₁, hp, hk⟩ := run_bind h
  exact ⟨a, ⟨st, st₁, hp⟩, st₁, st', hk⟩

/-- The value of a computation without what it made salient. -/
theorem Built.run' {r : Resolving α} {ctx : Context} (h : Built asks ends (r.run ctx)) :
    Built asks ends (r.run' ctx) := by
  have hrun : (r.run' ctx : Play α) = r.run ctx >>= fun x => Pure.pure x.1 := rfl
  rw [hrun]
  exact h.next fun x => .pure x.1

end Play

namespace Resolving
variable {α β : Type} {asks ends : Bool}

/-- The same for computations that change what is salient: whether a player can be asked stays as
it is. -/
def Built (asks ends : Bool) (r : Resolving α) : Prop :=
  ∀ ctx : Context, (ctx.interactive = true → asks = true) →
    Play.Built asks ends (r.run ctx) ∧
      ∀ x, Play.Yields (r.run ctx) x → x.2.interactive = ctx.interactive

namespace Built

theorem lift {p : Play α} (h : Play.Built asks ends p) : Built asks ends (liftM p) := by
  intro ctx _
  refine ⟨h.next fun a => .pure (a, ctx), ?_⟩
  intro x hx
  obtain ⟨a, _, st, st', hst⟩ : ∃ a, p.Yields a ∧ Play.Yields (Pure.pure (a, ctx)) x :=
    Play.Yields.bind hx
  cases hst
  rfl

theorem pure (a : α) : Built asks ends (Pure.pure a : Resolving α) := lift (.pure a)

theorem fail (f : Fault) : Built asks ends (throw f : Resolving α) := by
  intro ctx _
  refine ⟨.fail f, ?_⟩
  rintro x ⟨st, st', hst⟩
  cases hst

theorem outcome (x : Outcome α) : Built asks ends (liftM x : Resolving α) := lift (.lift x)

theorem next {r : Resolving α} {k : α → Resolving β} (hr : Built asks ends r)
    (hk : ∀ a, Built asks ends (k a)) : Built asks ends (r >>= k) := by
  intro ctx hctx
  obtain ⟨hp, hi⟩ := hr ctx hctx
  have hafter : ∀ x, Play.Yields (r.run ctx) x → (x.2.interactive = true → asks = true) :=
    fun x hx h => hctx (hi x hx ▸ h)
  refine ⟨hp.bind fun x hx => (hk x.1 x.2 (hafter x hx)).1, ?_⟩
  intro y hy
  obtain ⟨x, hx, hy⟩ : ∃ x, Play.Yields (r.run ctx) x ∧ Play.Yields ((k x.1).run x.2) y :=
    Play.Yields.bind hy
  rw [(hk x.1 x.2 (hafter x hx)).2 y hy, hi x hx]

theorem look {k : Match → Resolving α} (h : ∀ m, k m = k m.bare)
    (hk : ∀ m, Built asks ends (k m)) : Built asks ends (game >>= k) := by
  intro ctx hctx
  refine ⟨.look (fun m => by rw [h m]) fun m => (hk m ctx hctx).1, ?_⟩
  rintro y ⟨st, st', hst⟩
  exact (hk st.game ctx hctx).2 y ⟨st, st', hst⟩

theorem context {k : Context → Resolving α}
    (hk : ∀ ctx : Context, (ctx.interactive = true → asks = true) → Built asks ends (k ctx)) :
    Built asks ends (MonadState.get >>= k) := fun ctx hctx => hk ctx hctx ctx hctx

theorem salience {f : Context → Context} (h : ∀ ctx, (f ctx).interactive = ctx.interactive) :
    Built asks ends (modify f : Resolving Unit) := by
  intro ctx _
  refine ⟨.pure ((), f ctx), ?_⟩
  rintro x ⟨st, st', hst⟩
  cases hst
  exact h ctx

theorem edit {f : Match → Match} (h : Edit f) : Built asks ends (change f) := lift (.edit h)

theorem note (h : Happening) (hplain : h.isPlain = true) : Built asks ends (Resolving.note h) :=
  lift (.note h hplain)

theorem forM {as : List α} {k : α → Resolving Unit} (hk : ∀ a, Built asks ends (k a)) :
    Built asks ends (as.forM k) := by
  induction as with
  | nil => exact pure ()
  | cons a as ih => exact (hk a).next fun _ => ih

theorem run {r : Resolving α} (h : Built asks ends r) {ctx : Context}
    (hctx : ctx.interactive = true → asks = true) : Play.Built asks ends (r.run ctx) :=
  (h ctx hctx).1

theorem run' {r : Resolving α} (h : Built asks ends r) {ctx : Context}
    (hctx : ctx.interactive = true → asks = true) : Play.Built asks ends (r.run' ctx) :=
  (h.run hctx).run'

end Built
end Resolving
end HexDuel
