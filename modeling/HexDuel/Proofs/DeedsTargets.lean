import HexDuel.Proofs.Deeds

/-!
Computations by what they do. A computation goes by steps of a kind when each of its runs that ends
well is a course of such steps. Targets, conditions and numbers are found by inquiries, and the
cells that a target stands for are known.
-/

set_option autoImplicit false

namespace HexDuel

variable {D E : Stage → Stage → Prop} {α β : Type}

namespace Play

/-- Each run that ends well is a course of such steps. -/
def Goes (D : Stage → Stage → Prop) (p : Play α) : Prop :=
  ∀ s a s', p.run s = .ok (a, s') → Relation.ReflTransGen D s s'

namespace Goes

theorem lift (x : Outcome α) : Goes D (liftM x : Play α) := by
  intro s a s' h
  obtain ⟨_, rfl⟩ := of_run_lift h
  exact .refl

theorem pure (a : α) : Goes D (Pure.pure a : Play α) := lift (.ok a)

theorem fail (f : Fault) : Goes D (throw f : Play α) := lift (.error f)

theorem next {p : Play α} {k : α → Play β} (hp : Goes D p) (hk : ∀ a, Goes D (k a)) :
    Goes D (p >>= k) := by
  intro s b s' h
  obtain ⟨a, s₁, hfirst, hrest⟩ := run_bind h
  exact (hp s a s₁ hfirst).trans (hk a s₁ b s' hrest)

theorem look {k : Match → Play α} (hk : ∀ m, Goes D (k m)) : Goes D (game >>= k) :=
  fun s a s' h => hk s.game s a s' h

theorem course {f : Match → Match} (h : ∀ s : Stage, Relation.ReflTransGen D s (s.map f)) :
    Goes D (Play.change f) := by
  intro s a s' hrun
  cases hrun
  exact h s

theorem change {f : Match → Match} (h : ∀ s : Stage, D s (s.map f)) : Goes D (Play.change f) :=
  course fun s => .single (h s)

theorem note {n : Happening} (h : ∀ s : Stage, D s ⟨s.game, n :: s.trace⟩) :
    Goes D (Play.note n) := by
  intro s a s' hrun
  cases hrun
  exact .single (h s)

theorem forM {as : List α} {k : α → Play Unit} (hk : ∀ a, Goes D (k a)) : Goes D (as.forM k) := by
  induction as with
  | nil => exact pure ()
  | cons a as ih => exact (hk a).next fun _ => ih

theorem foldl {f : α → Match → Match} (h : ∀ a, Goes D (Play.change (f a))) (as : List α) :
    Goes D (Play.change fun m => as.foldl (fun m a => f a m) m) := by
  induction as with
  | nil => exact pure ()
  | cons a as ih => exact (h a).next fun _ => ih

theorem mono {p : Play α} (hp : Goes D p) (h : ∀ s s', D s s' → E s s') : Goes E p :=
  fun s a s' hrun => Relation.ReflTransGen.mono h _ _ (hp s a s' hrun)

theorem piece? {k : Option Piece → Play α} {id : PieceId} (hk : ∀ p, Goes D (k p)) :
    Goes D (Play.piece? id >>= k) := look fun m => hk (m.board.get? id)

end Goes

theorem number_of_run {s s' : Stage} {n : Nat} (h : freshId.run s = .ok (n, s')) :
    n = s.game.lastId + 1 ∧ s' = s.number := by
  rw [run_freshId] at h
  split at h
  · cases h
    exact ⟨rfl, rfl⟩
  · cases h

end Play

namespace Resolving

/-- The same for computations that change what is salient. -/
def Goes (D : Stage → Stage → Prop) (r : Resolving α) : Prop := ∀ ctx, Play.Goes D (r.run ctx)

theorem run_bind {r : Resolving α} {k : α → Resolving β} {ctx : Context} {s s' : Stage}
    {y : β × Context} (h : ((r >>= k).run ctx).run s = .ok (y, s')) :
    ∃ a ctx' s₁, (r.run ctx).run s = .ok ((a, ctx'), s₁) ∧
      ((k a).run ctx').run s₁ = .ok (y, s') := by
  have h : (r.run ctx >>= fun x => (k x.1).run x.2).run s = .ok (y, s') := h
  obtain ⟨⟨a, ctx'⟩, s₁, hfirst, hrest⟩ := Play.run_bind h
  exact ⟨a, ctx', s₁, hfirst, hrest⟩

theorem of_run_look {k : Match → Resolving β} {ctx : Context} {s : Stage}
    {x : (β × Context) × Stage} (h : ((game >>= k).run ctx).run s = .ok x) :
    ((k s.game).run ctx).run s = .ok x := h

theorem of_run_lift {p : Play α} {ctx : Context} {s s' : Stage} {x : α × Context}
    (h : ((liftM p : Resolving α).run ctx).run s = .ok (x, s')) : p.run s = .ok (x.1, s') := by
  have h : (p >>= fun a => Pure.pure (a, ctx)).run s = .ok (x, s') := h
  obtain ⟨a, s₁, hrun, hrest⟩ := Play.run_bind h
  cases hrest
  exact hrun

namespace Goes

theorem lift {p : Play α} (h : Play.Goes D p) : Goes D (liftM p : Resolving α) :=
  fun ctx => h.next fun a => .pure (a, ctx)

theorem outcome (x : Outcome α) : Goes D (liftM x : Resolving α) := lift (.lift x)

theorem pure (a : α) : Goes D (Pure.pure a : Resolving α) := lift (.pure a)

theorem fail (f : Fault) : Goes D (throw f : Resolving α) := fun _ => .fail f

theorem next {r : Resolving α} {k : α → Resolving β} (hr : Goes D r) (hk : ∀ a, Goes D (k a)) :
    Goes D (r >>= k) := fun ctx => (hr ctx).next fun x => hk x.1 x.2

/-- What follows goes by what the outcome is. -/
theorem known {x : Outcome α} {k : α → Resolving β} (hk : ∀ a, x = .ok a → Goes D (k a)) :
    Goes D (liftM x >>= k) := by
  intro ctx s y s' h
  obtain ⟨a, ctx', s₁, hx, hrest⟩ := run_bind h
  obtain ⟨heq, rfl⟩ := Play.of_run_lift (of_run_lift hx)
  exact hk a heq ctx' s₁ y s' hrest

theorem look {k : Match → Resolving α} (hk : ∀ m, Goes D (k m)) : Goes D (game >>= k) :=
  fun ctx s a s' h => hk s.game ctx s a s' h

theorem context {k : Context → Resolving α} (hk : ∀ ctx, Goes D (k ctx)) :
    Goes D (MonadState.get >>= k) := fun ctx => hk ctx ctx

theorem salience (f : Context → Context) : Goes D (modify f : Resolving Unit) :=
  fun ctx => .pure ((), f ctx)

theorem change {f : Match → Match} (h : ∀ s : Stage, D s (s.map f)) :
    Goes D (Resolving.change f) := lift (.change h)

theorem note {n : Happening} (h : ∀ s : Stage, D s ⟨s.game, n :: s.trace⟩) :
    Goes D (Resolving.note n) := lift (.note h)

theorem forM {as : List α} {k : α → Resolving Unit} (hk : ∀ a, Goes D (k a)) :
    Goes D (as.forM k) := by
  induction as with
  | nil => exact pure ()
  | cons a as ih => exact (hk a).next fun _ => ih

theorem mono {r : Resolving α} (hr : Goes D r) (h : ∀ s s', D s s' → E s s') : Goes E r :=
  fun ctx => (hr ctx).mono h

theorem run' {r : Resolving α} (h : Goes D r) (ctx : Context) : Play.Goes D (r.run' ctx) :=
  (h ctx).next fun x => .pure x.1

end Goes

/-! ### Cells -/

/-- Once these cells are known, the collection is found by inquiries and its cells are known. -/
def Finds (given : List Hex) (r : Resolving Collection) : Prop :=
  ∀ ctx s x s', (∀ h ∈ given, s.Knows h) → (r.run ctx).run s = .ok (x, s') →
    Relation.ReflTransGen Inquiry s s' ∧ ∀ h ∈ x.1.cells, s'.Knows h

theorem knows_of_inquired {s s' : Stage} {hex : Hex} (h : Relation.ReflTransGen Inquiry s s')
    (hs : s.Knows hex) : s'.Knows hex :=
  hs.later
    (steps_of_tended (Relation.ReflTransGen.mono (fun _ _ => Tending.inquiry) _ _ h)).trace_suffix

namespace Finds
variable {given : List Hex}

theorem goes {r : Resolving Collection} (h : Finds [] r) : Goes Inquiry r :=
  fun ctx s x s' hrun => (h ctx s x s' (fun _ h => nomatch h) hrun).1

theorem pure {c : Collection} (h : ∀ hex ∈ c.cells, hex ∈ given ∨ hex ∈ Hex.all) :
    Finds given (Pure.pure c : Resolving Collection) := by
  intro ctx s x s' hgiven hrun
  cases hrun
  exact ⟨.refl, fun hex hhex => (h hex hhex).elim (hgiven hex) .inl⟩

theorem none {c : Collection} (h : c.cells = []) :
    Finds given (Pure.pure c : Resolving Collection) :=
  pure fun hex hhex => by rw [h] at hhex; cases hhex

theorem fail (f : Fault) : Finds given (throw f : Resolving Collection) := by
  intro ctx s x s' _ hrun
  cases hrun

theorem next {r : Resolving α} {k : α → Resolving Collection} (hr : Goes Inquiry r)
    (hk : ∀ a, Finds given (k a)) : Finds given (r >>= k) := by
  intro ctx s x s' hgiven hrun
  obtain ⟨a, ctx', s₁, hfirst, hrest⟩ := run_bind hrun
  have hcourse := hr ctx s (a, ctx') s₁ hfirst
  have hgiven' : ∀ h ∈ given, s₁.Knows h := fun h hmem => knows_of_inquired hcourse (hgiven h hmem)
  obtain ⟨hcourse', hcells⟩ := hk a ctx' s₁ x s' hgiven' hrest
  exact ⟨hcourse.trans hcourse', hcells⟩

/-- What is made of a collection that is found. -/
theorem bind {r : Resolving Collection} {k : Collection → Resolving Collection}
    (hr : Finds given r) (hk : ∀ c, Finds c.cells (k c)) : Finds given (r >>= k) := by
  intro ctx s x s' hgiven hrun
  obtain ⟨c, ctx', s₁, hfirst, hrest⟩ := run_bind hrun
  obtain ⟨hcourse, hcells⟩ := hr ctx s (c, ctx') s₁ hgiven hfirst
  obtain ⟨hcourse', hcells'⟩ := hk c ctx' s₁ x s' hcells hrest
  exact ⟨hcourse.trans hcourse', hcells'⟩

theorem look {k : Match → Resolving Collection} (hk : ∀ m, Finds given (k m)) :
    Finds given (game >>= k) := fun ctx s x s' hgiven h => hk s.game ctx s x s' hgiven h

theorem context {k : Context → Resolving Collection} (hk : ∀ ctx, Finds given (k ctx)) :
    Finds given (MonadState.get >>= k) := fun ctx => hk ctx ctx

theorem outcome {x : Outcome α} {k : α → Resolving Collection}
    (hk : ∀ a, x = .ok a → Finds given (k a)) : Finds given (liftM x >>= k) := by
  intro ctx s y s' hgiven hrun
  obtain ⟨a, ctx', s₁, hfirst, hrest⟩ := run_bind hrun
  cases x with
  | error f => cases hfirst
  | ok a =>
    cases hfirst
    exact hk a rfl ctx s y s' hgiven hrest

end Finds

/-! ### Picks and choices -/

theorem mem_of_mem_pick {count : Nat} {xs : List α} {g : Generator} {a : α}
    (h : a ∈ (Generator.pick count xs g).1) : a ∈ xs := by
  induction count generalizing xs g with
  | zero => cases h
  | succ count ih =>
    cases xs with
    | nil => cases h
    | cons x xs =>
      unfold Generator.pick at h
      dsimp only at h
      split at h
      · cases h
      · rename_i b hb
        obtain rfl | hrest := List.mem_cons.1 h
        · exact List.mem_of_getElem? hb
        · exact List.mem_of_mem_eraseIdx (ih hrest)

theorem goes_pickFrom (count : Nat) (xs : List α) : Goes Inquiry (pickFrom count xs) :=
  .look fun _ => (Goes.change fun _ => .random _).next fun _ => .pure _

theorem finds_pick (count : Nat) (c : Collection) : Finds c.cells (pick count c) := by
  cases c with
  | hexes xs =>
    intro ctx s x s' hgiven hrun
    have hcourse : Goes Inquiry (pick count (.hexes xs)) :=
      (goes_pickFrom count xs).next fun _ => .pure _
    refine ⟨hcourse ctx s x s' hrun, ?_⟩
    intro hex hhex
    have hmem : hex ∈ xs := by
      cases hrun
      exact mem_of_mem_pick hhex
    exact knows_of_inquired (hcourse ctx s x s' hrun) (hgiven hex hmem)
  | _ => exact .next (goes_pickFrom count _) fun _ => .none rfl

/-- A pick is known when what it is made from is. -/
theorem finds_random (count : Nat) (c : Collection) : Finds c.cells (random count c) := by
  refine (finds_pick count c).bind fun picked => ?_
  refine .next (.note fun _ => .picked picked) fun _ => .look fun m => ?_
  dsimp only
  split
  · exact .pure fun _ => .inl
  · exact .next (.change fun _ => .addLog _ _ _) fun _ => .pure fun _ => .inl

/-- What a choice finds is known when its candidates are: a cell is found by naming it only. -/
theorem finds_consult (c : Collection) : Finds c.cells (consult c) := by
  intro ctx s x s' hgiven hrun
  have hconsulted := consulted hrun
  refine ⟨.single (.consult hgiven hconsulted), ?_⟩
  have hemptied : c.emptied.cells = [] := by cases c <;> rfl
  cases hconsulted with
  | answered choice later =>
    intro hex hhex
    cases choice with
    | card id =>
      unfold named at hhex
      dsimp only at hhex
      split at hhex <;> cases hhex
    | hex goal =>
      unfold named at hhex
      dsimp only at hhex
      split at hhex
      · cases hhex
      · obtain rfl := List.mem_singleton.1 hhex
        exact .inr ⟨_, _, _, _, List.mem_cons_self⟩
  | waiting | refused | suspended =>
    intro hex hhex
    rw [hemptied] at hhex
    cases hhex

theorem finds_choose (c : Collection) : Finds c.cells (choose c) := by
  unfold choose
  split
  · exact .fail _
  · refine .context fun ctx => ?_
    split
    · exact finds_random 1 c
    · exact finds_consult c

theorem goes_freshCardId : Goes Inquiry freshCardId := by
  intro ctx s x s' hrun
  obtain ⟨n, s₁, hfresh, hrest⟩ := Play.run_bind hrun
  obtain ⟨_, rfl⟩ := Play.number_of_run hfresh
  cases hrest
  exact .single .number

theorem finds_copyOf (template : Option Card) : Finds [] (copyOf template) := by
  cases template with
  | none => exact .none rfl
  | some c => exact .next goes_freshCardId fun _ => .none rfl

theorem finds_generate (type : CardType) (stats : Stats) (name : Option String) :
    Finds [] (generate type stats name) := .next goes_freshCardId fun _ => .none rfl

theorem cells_ofSalient (m : Match) (s : Option Salient) :
    (Collection.ofSalient m s).cells = [] := by
  unfold Collection.ofSalient
  split
  · split <;> rfl
  · rfl
  · rfl

/-! ### The phrases -/

mutual

theorem finds_resolve : (t : Target) → Finds [] (resolve t)
  | .allTiles => .pure fun _ => .inr
  | .cardsInHand player _ =>
    .next (finds_resolve player).goes fun _ => .outcome fun _ _ => .look fun _ => .none rfl
  | .piecesInPlay _ => .look fun _ => .none rfl
  | .piecesMatching _ conditions =>
    .next (goes_compileAll conditions) fun _ => .look fun _ => .outcome fun _ _ => .none rfl
  | .tilesMatching conditions =>
    .next (goes_compileAll conditions) fun _ => .look fun _ => .outcome fun _ hkeep =>
      .pure fun _ hhex => .inr ((Outcome.keep_sublist hkeep).subset hhex)
  | .all inner => finds_resolve inner
  | .choose inner => (finds_resolve inner).bind finds_choose
  | .random count pool => (finds_resolve pool).bind (finds_random count)
  | .it | .that | .they | .thisPiece =>
    .look fun _ => .context fun _ => .none (cells_ofSalient _ _)
  | .allPlayers => .look fun _ => .none rfl
  | .selfPlayer | .opponent | .salientPlayer => .context fun _ => .look fun _ => .none rfl
  | .controllerOf inner =>
    .next (finds_resolve inner).goes fun _ => .look fun _ => .outcome fun _ _ => .none rfl
  | .copyOf inner =>
    .next (finds_resolve inner).goes fun _ => .look fun _ => .outcome fun _ _ => finds_copyOf _
  | .generateCard type stats name => finds_generate type stats name

theorem goes_compile : (c : Condition) → Goes Inquiry (compile c)
  | .adjacentTo target =>
    (finds_resolve target).goes.next fun _ => .look fun _ => (Goes.outcome _).next fun _ => .pure _
  | .attributeIs _ _ value => (goes_evaluate value).next fun _ => .pure _
  | .controlledBy target =>
    (finds_resolve target).goes.next fun _ => (Goes.outcome _).next fun _ => .pure _
  | .exactDistance _ target | .withinDistance _ target =>
    (finds_resolve target).goes.next fun _ => .look fun _ => (Goes.outcome _).next fun _ => .pure _
  | .hasId _ | .hasProperty _ | .unoccupied => .pure _

theorem goes_compileAll : (cs : List Condition) → Goes Inquiry (compileAll cs)
  | [] => .pure _
  | c :: cs => (goes_compile c).next fun _ => (goes_compileAll cs).next fun _ => .pure _

theorem goes_evaluate : (n : Number) → Goes Inquiry (evaluate n)
  | .const _ => .pure _
  | .count target => (finds_resolve target).goes.next fun _ => .pure _
  | .attributeSum target _ =>
    (finds_resolve target).goes.next fun _ => .look fun _ => (Goes.outcome _).next fun _ =>
      .outcome _
  | .attributeValue target _ =>
    (finds_resolve target).goes.next fun _ => .look fun _ => (Goes.outcome _).next fun _ => .pure _

end

/-- Finding targets, where it is part of something else. -/
theorem goes_resolve (h : ∀ s s', Inquiry s s' → D s s') (t : Target) : Goes D (resolve t) :=
  (finds_resolve t).goes.mono h

theorem inquired_of_resolve {t : Target} {ctx : Context} {x : Collection × Context} {s s' : Stage}
    (h : ((resolve t).run ctx).run s = .ok (x, s')) : Relation.ReflTransGen Inquiry s s' :=
  (finds_resolve t).goes ctx s x s' h

theorem goes_number (h : ∀ s s', Inquiry s s' → D s s') (n : Number) : Goes D (evaluate n) :=
  (goes_evaluate n).mono h

theorem goes_evaluateState (h : ∀ s s', Inquiry s s' → D s s') (c : StateCondition) :
    Goes D (evaluateState c) := by
  cases c with
  | collectionExists target => exact (goes_resolve h target).next fun _ => .pure _
  | targetHasProperty target property =>
    exact (goes_resolve h target).next fun _ => .look fun _ => (Goes.outcome _).next fun _ =>
      .outcome _

theorem goes_resolveModifier (h : ∀ s s', Inquiry s s' → D s s') (modifier : Modifier) :
    Goes D (resolveModifier modifier) := (goes_number h _).next fun _ => .pure _

theorem goes_resolvePieces (h : ∀ s s', Inquiry s s' → D s s') (target : Target) :
    Goes D (resolvePieces target) :=
  (goes_resolve h target).next fun _ => .look fun _ => .outcome _

end Resolving
end HexDuel
