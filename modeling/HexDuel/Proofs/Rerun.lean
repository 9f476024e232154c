import HexDuel.Proofs.Dialogue

/-!
A command that is run again with one more answer. It goes the way it went before, up to the choice
at which it stopped; there it takes the answer, which is one that this choice had on offer.
-/

set_option autoImplicit false

namespace HexDuel

variable {asks ends : Bool} {s s' : Stage} {player : Color}

/-! ### Answers used up -/

def Happening.isAnswer : Happening → Bool
  | .answered .. => true
  | _ => false

/-- The choices that were answered. -/
def answersIn (trace : List Happening) : List Happening := trace.filter (·.isAnswer)

theorem answersIn_cons {h : Happening} (hh : h.isAnswer = false) (trace : List Happening) :
    answersIn (h :: trace) = answersIn trace := by
  unfold answersIn
  rw [List.filter_cons_of_neg (by simp [hh])]

theorem isAnswer_of_isPlain {h : Happening} (hplain : h.isPlain = true) : h.isAnswer = false := by
  cases h with
  | answered => cases hplain
  | _ => rfl

/-- The player to move has no answers left, and these were used. -/
structure Spent (player : Color) (used : List Happening) (s : Stage) : Prop where
  turn : s.game.turn = player
  chosen : (s.game.seat player).selection.chosen = []
  used : answersIn s.trace = used

theorem Step.spent {used : List Happening} (h : Step asks false s s')
    (hquiet : endsTurn s'.trace = false) (hs : Spent player used s) : Spent player used s' := by
  have hturn := (h.turn hquiet).trans hs.turn
  have hbefore : endsTurn s.trace = false := any_eq_false_of_suffix h.trace_suffix hquiet
  cases h with
  | edit hf =>
    refine ⟨hturn, ?_, hs.used⟩
    rw [hf.silent.selection]
    exact hs.chosen
  | note h hplain =>
    exact ⟨hturn, hs.chosen, (answersIn_cons (isAnswer_of_isPlain hplain) _).trans hs.used⟩
  | number | walk | ending => exact ⟨hturn, hs.chosen, hs.used⟩
  | leave c hends => simp [hbefore] at hends
  | handOver c hends => simp [hbefore] at hends
  | consult _ hc =>
    cases hc with
    | answered choice later hchosen =>
      rw [hs.turn, hs.chosen] at hchosen
      cases hchosen
    | waiting | refused => exact ⟨hturn, hs.chosen, hs.used⟩
    | suspended =>
      refine ⟨hturn, ?_, (answersIn_cons rfl _).trans hs.used⟩
      rw [hs.turn, Match.selection_setSelection_self, Resolving.chosen_offer]

theorem Steps.spent {used : List Happening} (h : Steps asks false s s')
    (hquiet : endsTurn s'.trace = false) (hs : Spent player used s) : Spent player used s' :=
  h.keeps_quiet (fun _ _ hstep => hstep.spent) hquiet hs

/-- The player to move is asked, on that board, for one of these candidates. -/
structure AskedFor (player : Color) (c : Collection) (b : Board) (before : List Happening)
    (s : Stage) : Prop where
  turn : s.game.turn = player
  offered : (s.game.seat player).selection = Resolving.offer b c
  asked : .suspended player c b :: before <:+ s.trace

theorem Step.askedFor {c : Collection} {b : Board} {before : List Happening}
    (h : Step asks false s s') (hquiet : endsTurn s'.trace = false)
    (hs : AskedFor player c b before s) : AskedFor player c b before s' := by
  have hturn := (h.turn hquiet).trans hs.turn
  have hbefore : endsTurn s.trace = false := any_eq_false_of_suffix h.trace_suffix hquiet
  have hasked := hs.asked.trans h.trace_suffix
  cases h with
  | edit hf =>
    refine ⟨hturn, ?_, hasked⟩
    rw [hf.silent.selection]
    exact hs.offered
  | note | number | walk | ending => exact ⟨hturn, hs.offered, hasked⟩
  | leave c hends => simp [hbefore] at hends
  | handOver c hends => simp [hbefore] at hends
  | consult _ hc =>
    cases hc with
    | waiting => exact hs
    | answered choice later hchosen =>
      rw [hs.turn, hs.offered, Resolving.chosen_offer] at hchosen
      cases hchosen
    | refused _ hchoosing | suspended _ hchoosing =>
      rw [hs.turn, hs.offered, Resolving.choosing_offer] at hchoosing
      cases hchoosing

theorem Steps.askedFor {c : Collection} {b : Board} {before : List Happening}
    (h : Steps asks false s s') (hquiet : endsTurn s'.trace = false)
    (hs : AskedFor player c b before s) : AskedFor player c b before s' :=
  h.keeps_quiet (fun _ _ hstep => hstep.askedFor) hquiet hs

/-! ### One more answer -/

namespace Match

/-- The match without notices but the turn. -/
def blank (m : Match) : Match := m.mask Notices.blank

theorem blank_setSelection (m : Match) (c : Color) (x : Selection) :
    (m.setSelection c x).blank = m.blank := by cases c <;> rfl

end Match

/-- The second run has one more answer than the first, and so far they went the same way. -/
structure Ahead (player : Color) (x : Choice) (s t : Stage) : Prop where
  trace : s.trace = t.trace
  game : s.game.blank = t.game.blank
  turn : s.game.turn = player
  answers : ∃ later, (s.game.seat player).selection = .answering later ∧
    (t.game.seat player).selection = .answering (later ++ [x])

/-- The first run came to a stop at a choice for which the second took the answer. -/
inductive Forked (player : Color) (x : Choice) (s t : Stage) : Prop where
  | mk {c : Collection} {b : Board} {before : List Happening} (found : Collection) :
    AskedFor player c b before s →
    Spent player (.answered player x c found b :: answersIn before) t →
    .answered player x c found b :: before <:+ t.trace → Forked player x s t

/-- Or the first run is refused, or a turn has ended. -/
def Parted (player : Color) (x : Choice) (s t : Stage) : Prop :=
  s.game.refusal.isSome = true ∨ endsTurn s.trace = true ∨ endsTurn t.trace = true ∨
    Forked player x s t

theorem Parted.steps {x : Choice} {t t' : Stage} (h : Parted player x s t)
    (hs : Steps true false s s') (ht : Steps true false t t') : Parted player x s' t' := by
  obtain hrefused | hends | hends | ⟨found, hasked, hspent, hanswered⟩ := h
  · obtain hkept | ⟨_, hnew⟩ := hs.refusal
    · exact .inl (by rwa [hkept])
    · exact .inl (by rw [hnew]; rfl)
  · exact .inr (.inl (any_of_suffix hs.trace_suffix hends))
  · exact .inr (.inr (.inl (any_of_suffix ht.trace_suffix hends)))
  · cases hqs : endsTurn s'.trace with
    | true => exact .inr (.inl hqs)
    | false =>
      cases hqt : endsTurn t'.trace with
      | true => exact .inr (.inr (.inl hqt))
      | false =>
        exact .inr (.inr (.inr ⟨found, hs.askedFor hqs hasked, ht.spent hqt hspent,
          hanswered.trans ht.trace_suffix⟩))

namespace Ahead
variable {x : Choice} {t t' : Stage}

theorem of_silent {f : Match → Match} (h : Ahead player x s t) (hf : Match.Silent f) :
    Ahead player x ⟨f s.game, s.trace⟩ ⟨f t.game, t.trace⟩ := by
  refine ⟨h.trace, hf.mask_eq h.game, (hf.turn s.game).trans h.turn, ?_⟩
  rw [hf.selection, hf.selection]
  exact h.answers

theorem noted (h : Ahead player x s t) (n : Happening) :
    Ahead player x ⟨s.game, n :: s.trace⟩ ⟨t.game, n :: t.trace⟩ :=
  ⟨congrArg (n :: ·) h.trace, h.game, h.turn, h.answers⟩

theorem turn' (h : Ahead player x s t) : t.game.turn = player := by
  have hturn : s.game.blank.turn = t.game.blank.turn := congrArg _ h.game
  exact hturn.symm.trans h.turn

theorem board (h : Ahead player x s t) : t.game.board = s.game.board :=
  Match.board_eq_of_mask h.game

theorem named (h : Ahead player x s t) (c : Collection) (choice : Choice) :
    Resolving.named t.game c choice = Resolving.named s.game c choice :=
  Resolving.named_eq_of_mask h.game c choice

/-- While the first run has an answer left, the second takes the same one. -/
theorem answered (h : Ahead player x s t) {c : Collection} {ctx : Context} {choice : Choice}
    {rest : List Choice} (hqueue : (s.game.seat player).selection = .answering (choice :: rest))
    (hqueue' : (t.game.seat player).selection = .answering (choice :: rest ++ [x]))
    {r q : Collection × Context} (hs : Resolving.Consulted c ctx s r s')
    (ht : Resolving.Consulted c ctx t q t') : r = q ∧ Ahead player x s' t' := by
  have hturn := h.turn
  have hturn' := h.turn'
  subst hturn
  cases hs with
  | answered _ _ hchosen =>
    rw [hqueue] at hchosen
    cases hchosen
    cases ht with
    | answered _ _ hchosen' =>
      rw [hturn', hqueue'] at hchosen'
      cases hchosen'
      rw [h.named, hturn', h.board]
      refine ⟨rfl, congrArg (_ :: ·) h.trace, ?_, rfl, rest, ?_, ?_⟩
      · dsimp only
        rw [Match.blank_setSelection, Match.blank_setSelection, h.game]
      · dsimp only
        rw [Match.selection_setSelection_self, hqueue]
        rfl
      · dsimp only
        rw [Match.selection_setSelection_self, hqueue']
        rfl
    | _ hchosen' =>
      rw [hturn', hqueue'] at hchosen'
      cases hchosen'
  | _ hchosen =>
    rw [hqueue] at hchosen
    cases hchosen

/-- Once the first run has none left, it stops at the choice for which the second takes the new
answer. -/
theorem forked (h : Ahead player x s t) {c : Collection} {ctx : Context}
    (hqueue : (s.game.seat player).selection = .answering [])
    (hqueue' : (t.game.seat player).selection = .answering [x]) {r q : Collection × Context}
    (hs : Resolving.Consulted c ctx s r s') (ht : Resolving.Consulted c ctx t q t') :
    Parted player x s' t' := by
  have hturn := h.turn
  have hturn' := h.turn'
  subst hturn
  cases hs with
  | answered _ _ hchosen =>
    rw [hqueue] at hchosen
    cases hchosen
  | waiting _ hchoosing =>
    rw [hqueue] at hchoosing
    cases hchoosing
  | refused => exact .inl rfl
  | suspended =>
    cases ht with
    | answered _ _ hchosen' =>
      rw [hturn', hqueue'] at hchosen'
      cases hchosen'
      have hasked : AskedFor s.game.turn c s.game.board s.trace
          ⟨s.game.setSelection s.game.turn (Resolving.offer s.game.board c),
            .suspended s.game.turn c s.game.board :: s.trace⟩ :=
        ⟨rfl, Match.selection_setSelection_self _ _ _, List.suffix_rfl⟩
      rw [h.named, hturn', h.board]
      refine .inr (.inr (.inr (.mk (Resolving.named s.game c x) hasked ⟨hturn', ?_, ?_⟩ ?_)))
      · exact congrArg Selection.chosen (Match.selection_setSelection_self _ _ _)
      · exact (congrArg (fun trace => _ :: answersIn trace) h.trace).symm
      · exact ⟨[], congrArg (_ :: ·) h.trace⟩
    | _ hchosen' =>
      rw [hturn', hqueue'] at hchosen'
      cases hchosen'

theorem consulted (h : Ahead player x s t) {c : Collection} {ctx : Context}
    {r q : Collection × Context} (hs : Resolving.Consulted c ctx s r s')
    (ht : Resolving.Consulted c ctx t q t') :
    r = q ∧ Ahead player x s' t' ∨ Parted player x s' t' := by
  obtain ⟨later, hqueue, hqueue'⟩ := h.answers
  cases later with
  | nil => exact .inr (h.forked hqueue hqueue' hs ht)
  | cons choice rest => exact .inl (h.answered hqueue hqueue' hs ht)

end Ahead

/-- Until it takes the further answer, the second run goes the same way as the first. -/
theorem simulation_ahead (player : Color) (x : Choice) :
    Simulation true (fun ends s t => ends = false ∧ Ahead player x s t)
      fun ends s t => if ends then endsTurn s.trace = true else Parted player x s t where
  bare h := Match.bare_eq_of_mask h.2.game fun _ => rfl
  edit h hf := ⟨h.1, h.2.of_silent hf.silent⟩
  walk id _ _ h := ⟨h.1, h.2.of_silent (Match.silent_changePiece id _)⟩
  note h _ := ⟨h.1, h.2.noted _⟩
  number n h :=
    ⟨h.1, (h.2.of_silent (f := fun m => { m with lastId := n }) fun _ _ => rfl).noted _⟩
  consult _ h hs ht := by
    obtain ⟨rfl, h⟩ := h
    obtain ⟨heq, hahead⟩ | hparted := h.consulted hs ht
    · exact .inl ⟨heq, rfl, hahead⟩
    · exact .inr hparted
  leave _ h := nomatch h.1
  handOver _ h := nomatch h.1
  ending _ := .inr rfl
  ended h := nomatch h.1
  parted {ends} _ _ _ _ h hs ht := by
    cases ends with
    | true => exact any_of_suffix hs.trace_suffix h
    | false => exact Parted.steps h hs ht
  endedApart {ends} s t h := by
    cases ends with
    | true => exact h
    | false => exact .inr (.inl h)

/-! ### What answers stand for -/

/-- Every answer is one that its choice had on offer, and stands for one of the candidates. -/
def Aligned (trace : List Happening) : Prop :=
  ∀ player x c found b, .answered player x c found b ∈ trace →
    Resolving.Exposes b c x ∧ Resolving.Supplies b c found

/-- On a sound board, what is on offer stands for one of the candidates. -/
structure Supplied (s : Stage) : Prop where
  sound : s.game.board.Sound
  found : ∀ player x c found b, .answered player x c found b ∈ s.trace →
    Resolving.Exposes b c x → Resolving.Supplies b c found

theorem Supplied.of_noted {n : Happening} (h : Supplied s) (hsound : s'.game.board.Sound)
    (htrace : s'.trace = n :: s.trace) (hn : n.isAnswer = false) : Supplied s' := by
  refine ⟨hsound, ?_⟩
  intro player x c found b hmem
  rw [htrace] at hmem
  obtain rfl | hmem := List.mem_cons.1 hmem
  · cases hn
  · exact h.found player x c found b hmem

theorem Step.supplied (h : Step asks ends s s') (hs : Supplied s) : Supplied s' := by
  have hsound := h.sound hs.sound
  cases h with
  | edit | walk | handOver => exact ⟨hsound, hs.found⟩
  | note h hplain => exact hs.of_noted hsound rfl (isAnswer_of_isPlain hplain)
  | number | leave | ending => exact hs.of_noted hsound rfl rfl
  | consult _ hc =>
    cases hc with
    | waiting => exact hs
    | refused => exact ⟨hsound, hs.found⟩
    | suspended => exact hs.of_noted hsound rfl rfl
    | answered choice later =>
      refine ⟨hsound, ?_⟩
      intro player x c found b hmem hexposed
      obtain hnew | hmem := List.mem_cons.1 hmem
      · cases hnew
        exact Resolving.supplies_named hs.sound hexposed
      · exact hs.found player x c found b hmem hexposed

theorem Steps.supplied (h : Steps asks ends s s') (hs : Supplied s) : Supplied s' :=
  h.keeps (fun _ _ hstep => hstep.supplied) hs

theorem mem_answersIn {trace : List Happening} {x : Choice} {c found : Collection} {b : Board} :
    .answered player x c found b ∈ answersIn trace ↔ .answered player x c found b ∈ trace := by
  unfold answersIn
  simp [List.mem_filter, Happening.isAnswer]

theorem Steps.answersIn_eq (h : Steps false ends s s') :
    answersIn s'.trace = answersIn s.trace := by
  have hquestions : ∀ trace, answersIn trace = answersIn (questions trace) := by
    intro trace
    unfold answersIn questions
    rw [List.filter_filter]
    exact congrArg (trace.filter ·) (funext fun n => by cases n <;> rfl)
  rw [hquestions, h.questions_eq, ← hquestions]

namespace Match

variable {depth : Nat} {m m' m'' m₁ m₂ : Match} {p : Prompt} {x : Choice} {answers : List Choice}
  {posed trace : List Happening} {st st' : Stage}

theorem supplied_scratch (hm : m.board.Sound) : Supplied (m.scratch player answers) :=
  ⟨hm, fun _ _ _ _ _ hmem => nomatch hmem⟩

/-- What is on offer when a command stops is what its second run gets an answer to. -/
theorem Posed.forked (h : Posed depth m₁ p answers st) (hblank : m₁.blank = m₂.blank)
    (hturn : m₁.turn = p.player) {y : Except Rejection Unit}
    (hrun : (Attempt.perform (Play.runner depth) p.player p.resumption).run.run
      (m₂.scratch p.player (answers ++ [x])) = .ok (y, st'))
    (hq : endsTurn st.trace = false) (hq' : endsTurn st'.trace = false) :
    Forked p.player x st st' := by
  have hstart : Ahead p.player x (m₁.scratch p.player answers)
      (m₂.scratch p.player (answers ++ [x])) := by
    refine ⟨rfl, ?_, hturn, answers, ?_, ?_⟩
    · unfold scratch
      rw [blank_setSelection, blank_setSelection, hblank]
    · exact selection_setSelection_self _ _ _
    · exact selection_setSelection_self _ _ _
  have hbuilt := (Attempt.built_perform (Play.built_runner true depth) p.player p.resumption).1
  have hpair := hbuilt.paired (simulation_ahead p.player x) ⟨rfl, hstart⟩
  rw [h.run, hrun] at hpair
  cases hpair with
  | along _ hst =>
    -- A run alongside has no prompt at its end.
    obtain ⟨later, hlater, _⟩ := hst.2.answers
    have hchoosing := h.choosing
    rw [hlater] at hchoosing
    cases hchoosing
  | apart _ hend =>
    obtain hrefused | hends | hends | hforked := hend _ _ _ _ rfl rfl
    · rw [h.refusal] at hrefused
      cases hrefused
    · rw [hq] at hends
      cases hends
    · rw [hq'] at hends
      cases hends
    · exact hforked

/-- The run behind an attempt; settling asks nobody. -/
theorem Attempted.ran {player : Color} {resumption : Resumption} {chosen : List Choice}
    (h : Attempted depth m player resumption chosen m' trace) :
    ∃ y st, (Attempt.perform (Play.runner depth) player resumption).run.run
        (m.scratch player chosen) = .ok (y, st) ∧
      st.trace <:+ trace ∧ answersIn trace = answersIn st.trace := by
  cases h with
  | rejected r hrun => exact ⟨_, _, hrun, List.suffix_rfl, rfl⟩
  | refused r hrun => exact ⟨_, _, hrun, List.suffix_rfl, rfl⟩
  | suspended hrun => exact ⟨_, _, hrun, List.suffix_rfl, rfl⟩
  | carried hrun _ _ hsettle =>
    have hlater := steps_settle hsettle
    exact ⟨_, _, hrun, hlater.trace_suffix, hlater.answersIn_eq⟩

theorem blank_of_muted_release {c : Color} (h : (m.release c).muted = (m'.release c).muted) :
    m.blank = m'.blank := by
  have hblank : ∀ m : Match, m.blank = (m.release c).muted.blank := by
    intro m
    cases c <;> rfl
  rw [hblank m, hblank m', h]

/-- The answer to a prompt goes to the choice that asked for it, in a run that had gone the same way
until then. -/
theorem Waiting.rerun (hw : Waiting depth m m' answers posed p m₁ st) (hm : m'.Reachable)
    (hq : endsTurn posed = false) (haligned : Aligned posed)
    (hx : (m'.seat p.player).selection.allows x = true)
    (h : m'.submitTraced depth (.chooseTarget p.player x) = .ok (m'', trace))
    (hq' : endsTurn trace = false) :
    Aligned trace ∧ ∃ c b before found, .suspended p.player c b :: before <:+ posed ∧
      .answered p.player x c found b :: before <:+ trace := by
  have hprompted := hm.prompted hw.pending
  have hblank : m₁.blank = m'.heard.blank :=
    blank_of_muted_release (hw.ran.trans hw.same.symm)
  have hturn : m₁.turn = p.player := by
    have hturn : m₁.blank.turn = m'.heard.blank.turn := congrArg _ hblank
    exact hturn.trans hprompted.turn.symm
  have hchosen : (m'.seat p.player).selection.chosen = answers := by rw [hw.offered]
  rw [submitTraced_answer hprompted.undecided hw.pending hx, hchosen] at h
  obtain ⟨y, st', hrun, hsuffix, hanswers⟩ := (attempted h).ran
  have hqst : endsTurn st.trace = false := by rwa [← hw.posed]
  have hqst' := any_eq_false_of_suffix hsuffix hq'
  obtain ⟨found, hasked, hspent, hanswered⟩ := hw.asked.forked hblank hturn hrun hqst hqst'
  rename_i c b before
  have hsupplied := (steps_perform hrun).supplied (supplied_scratch hm.board_sound)
  have hexposed : Resolving.Exposes b c x := by
    rw [← Resolving.allows_offer_iff, ← hasked.offered]
    rw [hw.offered] at hx
    cases x <;> exact hx
  have hbefore : before <:+ posed := by
    rw [hw.posed]
    exact (List.suffix_cons _ _).trans hasked.asked
  refine ⟨?_, c, b, before, found, hw.posed ▸ hasked.asked, hanswered.trans hsuffix⟩
  -- The answers are the new one and those that the earlier run had used before it stopped.
  intro player z c' found' b' hmem
  have hmem' : .answered player z c' found' b' ∈ answersIn st'.trace := by
    rw [← hanswers]
    exact mem_answersIn.2 hmem
  have hoffered : Resolving.Exposes b' c' z := by
    rw [hspent.used] at hmem'
    obtain hnew | hold := List.mem_cons.1 hmem'
    · cases hnew
      exact hexposed
    · exact (haligned _ _ _ _ _ (hbefore.subset (mem_answersIn.1 hold))).1
  exact ⟨hoffered, hsupplied.found player z c' found' b' (mem_answersIn.1 hmem') hoffered⟩

/-! ### Dialogues -/

variable {allowed : List Happening → Prop}

theorem Dialogue.reachable (h : Dialogue depth allowed m m' answers posed) (hm : m.Reachable) :
    m'.Reachable := by
  induction h with
  | asked _ h => exact hm.next h
  | interrupted _ h _ _ ih => exact ih.next h
  | answered _ h _ _ _ ih => exact ih.next h

theorem Dialogue.allows (h : Dialogue depth allowed m m' answers posed) : allowed posed := by
  induction h with
  | asked _ _ _ hallowed => exact hallowed
  | interrupted _ _ _ _ ih => exact ih
  | answered _ _ _ _ hallowed => exact hallowed

/-- A dialogue in which no action ends the turn. -/
abbrev Undisturbed (depth : Nat) : Match → Match → List Choice → List Happening → Prop :=
  Dialogue depth fun trace => endsTurn trace = false

theorem Dialogue.aligned (h : Undisturbed depth m m' answers posed) (hm : m.Reachable) :
    Aligned posed := by
  induction h with
  | asked hnone h hpending hq =>
    obtain ⟨p, st, hturn, hposed, _, rfl⟩ := posed_of_asked hnone h hpending
    have hstart : Spent p.player [] (m.heard.scratch p.player []) :=
      ⟨hturn.symm, congrArg _ (selection_setSelection_self _ _ _), rfl⟩
    have hspent := (steps_perform hposed.run).spent hq hstart
    intro player x c found b hmem
    have hmem' := mem_answersIn.2 hmem
    rw [hspent.used] at hmem'
    cases hmem'
  | interrupted _ _ _ _ ih => exact ih
  | answered hd h hr hpending hq ih =>
    obtain ⟨p, m₁, st, hw⟩ := hd.waiting
    cases submitted h with
    | early => cases hr
    | started _ _ _ hresumption => cases hresumption
    | passed _ _ _ hpass => cases hpass
    | answered _ hprompt hplayer hc hx _ =>
      cases hc
      cases hw.pending.symm.trans hprompt
      cases hplayer
      exact (hw.rerun (hd.reachable hm) hd.allows ih hx h hq).1

/-- Prompt and answer stay aligned. While no action ends the turn, every choice that takes an answer
takes one that it would have had on offer at that moment, and gets one of its own candidates for it
or what stands on one; and a command that is run again goes, note for note, the way it went before
up to the choice that had asked, and this is the choice that takes the new answer. -/
theorem Dialogue.rerun_aligned (h : Undisturbed depth m m' answers posed) (hm : m.Reachable)
    (hp : m'.pending = some p) (hx : (m'.seat p.player).selection.allows x = true)
    (hrun : m'.submitTraced depth (.chooseTarget p.player x) = .ok (m'', trace))
    (hq : endsTurn trace = false) :
    Aligned trace ∧ ∃ c b before found, .suspended p.player c b :: before <:+ posed ∧
      .answered p.player x c found b :: before <:+ trace := by
  obtain ⟨q, m₁, st, hw⟩ := h.waiting
  cases hw.pending.symm.trans hp
  exact hw.rerun (h.reachable hm) h.allows (h.aligned hm) hx hrun hq

/-- A card that asks twice for a target: the second run takes the first answer as before, and the
second answer where it had stopped. -/
theorem Dialogue.rerun_aligned_solo :
    ∃ (m m' m'' : Match) (p : Prompt) (x : Choice) (posed trace : List Happening),
      Undisturbed maxDepth m m' [x] posed ∧ m.Reachable ∧ m'.pending = some p ∧
      (m'.seat p.player).selection.allows x = true ∧
      m'.submitTraced maxDepth (.chooseTarget p.player x) = .ok (m'', trace) ∧
      endsTurn trace = false ∧
      Aligned trace ∧ ∃ c b before found, .suspended p.player c b :: before <:+ posed ∧
        .answered p.player x c found b :: before <:+ trace := by
  let x : Choice := .hex Color.orange.coreHex
  let p : Prompt := ⟨.blue, .playCard "blue/event" none⟩
  have hrun : ((MatchSetup.solo [.dealDamage (.choose (.piecesInPlay .any)) (.const 1),
      .dealDamage (.choose (.piecesInPlay .any)) (.const 2)]).start.holds fun m =>
      m.pending.isNone && (m.submitTraced maxDepth .playSolo).holds fun y =>
      y.1.pending.isSome && !endsTurn y.2 &&
      (y.1.submitTraced maxDepth (.chooseTarget .blue x)).holds fun z =>
      z.1.refusal.isNone && decide (z.1.pending = some p) && !endsTurn z.2 &&
      (z.1.seat .blue).selection.allows x &&
      (z.1.submitTraced maxDepth (.chooseTarget .blue x)).holds fun w => !endsTurn w.2) = true := by
    decide +kernel
  obtain ⟨m, hstart, hrun⟩ := Outcome.exists_of_holds hrun
  simp only [Bool.and_eq_true, Option.isNone_iff_eq_none] at hrun
  obtain ⟨hnone, hrun⟩ := hrun
  obtain ⟨⟨m₁, posed₁⟩, hplay, hrun⟩ := Outcome.exists_of_holds hrun
  simp only [Bool.and_eq_true, Bool.not_eq_true'] at hrun
  obtain ⟨⟨hpending₁, hq₁⟩, hrun⟩ := hrun
  obtain ⟨⟨m₂, posed₂⟩, hanswer, hrun⟩ := Outcome.exists_of_holds hrun
  simp only [Bool.and_eq_true, Bool.not_eq_true', Option.isNone_iff_eq_none,
    decide_eq_true_eq] at hrun
  obtain ⟨⟨⟨⟨hrefusal, hp⟩, hq₂⟩, hx⟩, hrun⟩ := hrun
  obtain ⟨⟨m₃, trace⟩, hlast, hq₃⟩ := Outcome.exists_of_holds hrun
  have hpending₂ : m₂.pending.isSome = true := by rw [hp]; rfl
  have hdialogue : Undisturbed maxDepth m m₂ [x] posed₂ :=
    .answered (.asked hnone hplay hpending₁ hq₁) hanswer hrefusal hpending₂ hq₂
  have hm : m.Reachable := .start hstart
  have hq : endsTurn trace = false := by simpa using hq₃
  exact ⟨m, m₂, m₃, p, x, posed₂, trace, hdialogue, hm, hp, hx, hlast, hq,
    hdialogue.rerun_aligned hm hp hx hlast hq⟩

end Match
end HexDuel
