import HexDuel.Library
import HexDuel.Proofs.Holdings
import Mathlib

/-!
No card twice. The cards that are dealt in all have different ids, and as long as whatever an action
puts on the board is made for it, the cards that are added bear ids that are new. An action that
takes the card from a hand leaves it there, too, and then there are two of it.
-/

set_option autoImplicit false

namespace HexDuel

/-! ### The ids that are dealt in -/

/-- The last separator is known by what follows it. -/
theorem List.eq_of_append_cons_eq {α : Type} {xs ys ds es : List α} {a : α}
    (h : xs ++ a :: ds = ys ++ a :: es) (hds : a ∉ ds) (hes : a ∉ es) : xs = ys ∧ ds = es := by
  obtain ⟨zs, hys, hrest⟩ | ⟨zs, hxs, hrest⟩ := List.append_eq_append_iff.1 h
  · cases zs with
    | nil => exact ⟨by simpa using hys.symm, (List.cons.inj hrest).2⟩
    | cons z zs =>
      obtain ⟨-, rfl⟩ := List.cons.inj hrest
      exact absurd (List.mem_append_right zs List.mem_cons_self) hds
  · cases zs with
    | nil => exact ⟨by simpa using hxs, (List.cons.inj hrest).2.symm⟩
    | cons z zs =>
      obtain ⟨-, rfl⟩ := List.cons.inj hrest
      exact absurd (List.mem_append_right zs List.mem_cons_self) hes

theorem Nat.hash_not_mem_toString (n : Nat) : '#' ∉ (toString n).toList := by
  intro h
  rw [Nat.toString_eq_repr, Nat.toList_repr] at h
  have hdigit := Nat.isDigit_of_mem_toDigits (by decide) (by decide) h
  exact absurd hdigit (by decide)

theorem tokenId_injective {a b : Nat} (h : tokenId a = tokenId b) : a = b := by
  have htext : "token/".toList ++ (toString a).toList = "token/".toList ++ (toString b).toList := by
    simpa [tokenId] using congrArg String.toList h
  exact Nat.repr_injective (String.toList_injective (List.append_cancel_left htext))

namespace Library

/-- The id of the copy of that number. -/
def copyId (name : String) (n : Nat) : CardId := s!"{name}#{n}"

theorem toList_copyId (name : String) (n : Nat) :
    (copyId name n).toList = name.toList ++ '#' :: (toString n).toList := by
  change (name ++ "#" ++ toString n).toList = _
  simp

theorem copyId_injective {name name' : String} {n n' : Nat}
    (h : copyId name n = copyId name' n') : name = name' ∧ n = n' := by
  have htext := congrArg String.toList h
  rw [toList_copyId, toList_copyId] at htext
  obtain ⟨hname, hn⟩ := List.eq_of_append_cons_eq htext (Nat.hash_not_mem_toString n)
    (Nat.hash_not_mem_toString n')
  exact ⟨String.toList_injective hname, Nat.repr_injective (String.toList_injective hn)⟩

theorem copies_cons_filter (made : List (String × Nat)) (name other : String) (n : Nat) :
    copies ((name, n) :: made.filter (·.1 != name)) other =
      if other = name then n else copies made other := by
  unfold copies
  rw [List.lookup_cons]
  by_cases hname : other = name
  · simp [hname]
  · have hne : (other == name) = false := by simpa using hname
    rw [hne, if_neg hname]
    change (List.lookup other (made.filter (·.1 != name))).getD 0 = (made.lookup other).getD 0
    congr 1
    induction made with
    | nil => rfl
    | cons entry made ih =>
      obtain ⟨k, v⟩ := entry
      by_cases hk : k = name
      · have hother : (other == k) = false := by simpa [hk] using hname
        rw [List.filter_cons_of_neg (by simpa using hk), List.lookup_cons, hother]
        exact ih
      · rw [List.filter_cons_of_pos (by simpa using hk), List.lookup_cons, List.lookup_cons, ih]

theorem buildFrom_cons {l : Library} {made : List (String × Nat)} {name : String}
    {names : List String} {cards : List Card} (h : l.buildFrom made (name :: names) = .ok cards) :
    ∃ card rest, cards = card :: rest ∧ card.id = copyId name (copies made name + 1) ∧
      l.buildFrom ((name, copies made name + 1) :: made.filter (·.1 != name)) names = .ok rest := by
  unfold buildFrom at h
  cases hentry : l.get name with
  | error f =>
    rw [hentry] at h
    cases h
  | ok entry =>
    rw [hentry] at h
    dsimp only [bind, Except.bind] at h
    cases hrest : l.buildFrom ((name, copies made name + 1) :: made.filter (·.1 != name))
        names with
    | error f =>
      rw [hrest] at h
      cases h
    | ok rest =>
      rw [hrest] at h
      cases h
      exact ⟨_, rest, rfl, rfl, rfl⟩

/-- What has been made is numbered beyond what had been made before. -/
def Beyond (made : List (String × Nat)) (id : CardId) : Prop :=
  ∃ name n, id = copyId name n ∧ copies made name < n

/-- One more copy of the name has been made: only greater numbers are beyond it. -/
theorem Beyond.of_cons {made : List (String × Nat)} {name : String} {id : CardId}
    (h : Beyond ((name, copies made name + 1) :: made.filter (·.1 != name)) id) :
    Beyond made id ∧ id ≠ copyId name (copies made name + 1) := by
  obtain ⟨other, n, rfl, hlt⟩ := h
  rw [copies_cons_filter] at hlt
  split at hlt
  · rename_i hother
    subst hother
    refine ⟨⟨other, n, rfl, by omega⟩, fun heq => ?_⟩
    have hn := (copyId_injective heq).2
    omega
  · rename_i hother
    exact ⟨⟨other, n, rfl, hlt⟩, fun heq => hother (copyId_injective heq).1⟩

theorem ids_buildFrom {l : Library} {made : List (String × Nat)} {names : List String}
    {cards : List Card} (h : l.buildFrom made names = .ok cards) :
    (cards.map (·.id)).Nodup ∧ ∀ card ∈ cards, Beyond made card.id := by
  induction names generalizing made cards with
  | nil =>
    cases h
    exact ⟨.nil, fun _ h => nomatch h⟩
  | cons name names ih =>
    obtain ⟨card, rest, rfl, hid, hrest⟩ := buildFrom_cons h
    obtain ⟨hnodup, hrange⟩ := ih hrest
    refine ⟨List.nodup_cons.2 ⟨fun hmem => ?_, hnodup⟩, fun x hx => ?_⟩
    · obtain ⟨x, hx, heq⟩ := List.mem_map.1 hmem
      exact (hrange x hx).of_cons.2 (heq.trans hid)
    · obtain rfl | hx := List.mem_cons.1 hx
      · exact ⟨name, _, hid, Nat.lt_succ_self _⟩
      · exact (hrange x hx).of_cons.1

end Library

namespace MatchSetup

/-- The id of a card in the deck of that player. -/
def ownedId (x : Color × CardId) : CardId := s!"{x.1.name}/{x.2}"

theorem toList_ownedId (owner : Color) (id : CardId) :
    (ownedId (owner, id)).toList = owner.name.toList ++ '/' :: id.toList := by
  change (owner.name ++ "/" ++ id).toList = _
  simp

theorem ownedId_injective : Function.Injective ownedId := by
  rintro ⟨owner, id⟩ ⟨owner', id'⟩ h
  have htext := congrArg String.toList h
  rw [toList_ownedId, toList_ownedId] at htext
  cases owner <;> cases owner'
  · simpa [String.toList_inj] using htext
  · simp [Color.name] at htext
  · simp [Color.name] at htext
  · simpa [String.toList_inj] using htext

theorem ownedId_ne_tokenId (x : Color × CardId) (n : Nat) : ownedId x ≠ tokenId n := by
  intro h
  obtain ⟨owner, id⟩ := x
  have htext := congrArg String.toList h
  have htoken : (tokenId n).toList = "token/".toList ++ (toString n).toList := by
    change ("token/" ++ toString n).toList = _
    simp
  rw [toList_ownedId, htoken] at htext
  cases owner <;> simp [Color.name] at htext

/-- Both decks were built from the library. -/
structure BuiltFrom (s : MatchSetup) (l : Library) (names : PerSide (List String)) : Prop where
  blue : l.buildDeck names.blue = .ok s.decks.blue
  orange : l.buildDeck names.orange = .ok s.decks.orange

/-- Whose cards are dealt in, and which. -/
def dealt (s : MatchSetup) : List (Color × CardId) :=
  s.decks.blue.map (fun card => (.blue, card.id)) ++
    s.decks.orange.map (fun card => (.orange, card.id)) ++ [(.blue, "core"), (.orange, "core")]

theorem ids_cards (s : MatchSetup) : s.cards.map (·.id) = s.dealt.map ownedId := by
  simp only [cards, dealt, ownedBy, List.map_append, List.map_map, List.map_cons, List.map_nil]
  rfl

/-- A card that was built has the sign in its id that a core has not. -/
theorem core_not_mem_map_id {l : Library} {names : List String} {deck : List Card}
    (h : l.buildDeck names = .ok deck) (owner c : Color) :
    (c, "core") ∉ deck.map fun card => (owner, card.id) := by
  intro hmem
  obtain ⟨card, hcard, heq⟩ := List.mem_map.1 hmem
  obtain ⟨name, n, hid, -⟩ := (Library.ids_buildFrom h).2 card hcard
  have hcore : card.id = "core" := congrArg Prod.snd heq
  have hsign : '#' ∈ "core".toList := by
    rw [← hcore, hid, Library.toList_copyId]
    exact List.mem_append_right _ List.mem_cons_self
  exact absurd hsign (by decide)

theorem nodup_owned {l : Library} {names : List String} {deck : List Card}
    (h : l.buildDeck names = .ok deck) (owner : Color) :
    (deck.map fun card => (owner, card.id)).Nodup :=
  List.Nodup.of_map Prod.snd (by simpa [Function.comp_def] using (Library.ids_buildFrom h).1)

theorem BuiltFrom.nodup_cards {s : MatchSetup} {l : Library} {names : PerSide (List String)}
    (h : s.BuiltFrom l names) : (s.cards.map (·.id)).Nodup := by
  rw [ids_cards]
  refine List.Nodup.map ownedId_injective ?_
  unfold dealt
  refine List.nodup_append.2 ⟨List.nodup_append.2 ⟨nodup_owned h.blue .blue,
    nodup_owned h.orange .orange, ?_⟩, by decide, ?_⟩
  · simp
  · intro x hx y hy heq
    subst heq
    have hcore : x = (x.1, "core") := by
      simp only [List.mem_cons, List.not_mem_nil, or_false] at hy
      obtain rfl | rfl := hy <;> rfl
    rw [hcore] at hx
    exact (List.mem_append.1 hx).elim (core_not_mem_map_id h.blue .blue x.1)
      (core_not_mem_map_id h.orange .orange x.1)

end MatchSetup

/-! ### Commands -/

namespace Match

variable {depth : Nat} {m m' : Match} {c : Command} {trace : List Happening}

/-- The cards that have been added are those made under these numbers. -/
structure Adds (m m' : Match) (ns : List Nat) : Prop where
  lastId : m.lastId ≤ m'.lastId
  nodup : ns.Nodup
  range : ∀ n ∈ ns, m.lastId < n ∧ n ≤ m'.lastId
  copies : ∀ id, m'.copies id = m.copies id + (ns.map tokenId).count id

theorem adds_of_submitTraced (hm : m.Reachable) (h : m.submitTraced depth c = .ok (m', trace))
    (hminting : m'.Accepted → Minting trace) : ∃ ns, m.Adds m' ns := by
  have hretold : ∀ {x y : Match}, x.Retold y → (∀ id, y.copies id = x.copies id) ∧
      y.lastId = x.lastId ∧ y.board = x.board ∧ (x.Shared → y.Shared) := by
    rintro x _ ⟨n, rfl⟩
    have hrests := rests_withNotices n x
    exact ⟨hrests.copies, rfl, rfl, (hrests.moves []).shared⟩
  cases enacted h with
  | idle _ htold =>
    obtain ⟨hcopies, hlast, -⟩ := hretold htold
    exact ⟨[], ⟨Nat.le_of_eq hlast.symm, .nil, fun _ h => (nomatch h), hcopies⟩⟩
  | @done st st' haccepted hcarries hsettle hend htrace =>
    obtain ⟨s, htold, -, hact⟩ := hcarries.acts
    obtain ⟨hbefore, hfirst, hboard, hshared⟩ := hretold htold
    obtain ⟨hafter, hlast, -⟩ := hretold hend
    have hall := hact.trans (act_settle hsettle)
    obtain ⟨gained, hmoves, hminted⟩ := hall.gains (hboard ▸ hm.board_sound)
    obtain ⟨ns, hids, hnodup, hrange⟩ := hminted (htrace ▸ hminting haccepted)
    rw [← hlast, hfirst] at hrange
    refine ⟨ns, ⟨?_, hnodup, hrange, fun id => ?_⟩⟩
    · rw [hlast, ← hfirst]
      exact hall.lastId_le
    · have hsum := hmoves.copies (hshared hm.shared) id
      rw [hbefore, copiesIn_nil, copiesIn, hids] at hsum
      rw [hafter]
      exact hsum.symm

/-- No id occurs twice, and none that is still to be handed out occurs at all. -/
structure Unique (m : Match) : Prop where
  once : ∀ id, m.copies id ≤ 1
  unmade : ∀ n, m.lastId < n → m.copies (tokenId n) = 0

theorem Unique.adds {ns : List Nat} (hm : m.Unique) (h : m.Adds m' ns) : m'.Unique := by
  have hinjective : Function.Injective tokenId := fun _ _ => tokenId_injective
  refine ⟨fun id => ?_, fun n hlt => ?_⟩
  · rw [h.copies]
    by_cases hid : id ∈ ns.map tokenId
    · obtain ⟨n, hn, rfl⟩ := List.mem_map.1 hid
      have hcount := List.nodup_iff_count_le_one.1 (h.nodup.map hinjective) (tokenId n)
      have hnone := hm.unmade n (h.range n hn).1
      omega
    · rw [List.count_eq_zero.2 hid]
      exact hm.once id
  · have hnew : tokenId n ∉ ns.map tokenId := by
      intro hmem
      obtain ⟨k, hk, heq⟩ := List.mem_map.1 hmem
      obtain rfl := tokenId_injective heq
      exact absurd (h.range k hk).2 (Nat.not_le.2 hlt)
    rw [h.copies, List.count_eq_zero.2 hnew]
    exact hm.unmade n (Nat.lt_of_le_of_lt h.lastId hlt)

theorem unique_start {s : MatchSetup} {l : Library} {names : PerSide (List String)}
    (hbuilt : s.BuiltFrom l names) (h : s.start = .ok m) : m.Unique := by
  refine ⟨fun id => ?_, fun n _ => ?_⟩
  · rw [MatchSetup.copies_of_start h]
    exact List.nodup_iff_count_le_one.1 hbuilt.nodup_cards id
  · rw [MatchSetup.copies_of_start h]
    refine List.count_eq_zero.2 fun hmem => ?_
    rw [MatchSetup.ids_cards] at hmem
    obtain ⟨x, -, heq⟩ := List.mem_map.1 hmem
    exact MatchSetup.ownedId_ne_tokenId x n heq

end Match

/-- A match that came about without any card being put on the board that was not made for it. -/
inductive MatchSetup.Mints (s : MatchSetup) : Match → Prop where
  | start {m : Match} : s.start = .ok m → s.Mints m
  | next {depth : Nat} {m m' : Match} {c : Command} {trace : List Happening} : s.Mints m →
    m.submitTraced depth c = .ok (m', trace) → (m'.Accepted → Minting trace) → s.Mints m'

namespace MatchSetup.Mints

variable {s : MatchSetup} {l : Library} {names : PerSide (List String)} {m : Match}

theorem reachable (h : s.Mints m) : m.Reachable := by
  induction h with
  | start h => exact .start h
  | next _ h _ ih => exact ih.next h

theorem unique (hbuilt : s.BuiltFrom l names) (hm : s.Mints m) : m.Unique := by
  induction hm with
  | start h => exact Match.unique_start hbuilt h
  | next hm h hminting ih =>
    obtain ⟨ns, hadds⟩ := Match.adds_of_submitTraced hm.reachable h hminting
    exact ih.adds hadds

/-- As long as whatever an action puts on the board is made for it, no id occurs twice among the
cards in the hands, on the discard piles, on the board and in the decks. The places in which a
command leaves more cards than before hold those made in the course of it, under numbers that had
not been handed out. -/
theorem no_card_twice (hbuilt : s.BuiltFrom l names) (hm : s.Mints m) :
    (∀ id, m.copies id ≤ 1) ∧
    ∀ (depth : Nat) (c : Command) (m' : Match) (trace : List Happening),
      m.submitTraced depth c = .ok (m', trace) → (m'.Accepted → Minting trace) →
      ∃ ns : List Nat, ns.Nodup ∧ (∀ n ∈ ns, m.lastId < n ∧ n ≤ m'.lastId) ∧
        ∀ id, m'.copies id = m.copies id + (ns.map tokenId).count id := by
  refine ⟨(hm.unique hbuilt).once, fun depth c m' trace h hminting => ?_⟩
  obtain ⟨ns, hadds⟩ := Match.adds_of_submitTraced hm.reachable h hminting
  exact ⟨ns, hadds.nodup, hadds.range, hadds.copies⟩

end MatchSetup.Mints

/-! ### Two small matches -/

/-- An event that puts a card on a free cell, and a robot. -/
def Library.summoning (card : Target) : Library where
  entries := [
    { name := "Summons", type := .event, cost := 0, stats := none, text := "",
      sentences := [.actions [.spawnPiece card (.tilesMatching [.unoccupied]) .selfPlayer]],
      origin := .builtin },
    { name := "Robot", type := .robot, cost := 0, stats := some ⟨some 1, 1, some 1⟩, text := "",
      sentences := [], origin := .builtin }]

namespace MatchSetup

/-- Blue brings one copy of each, and orange brings no card. -/
def summoning (card : Target) : MatchSetup :=
  { solo [] with
    decks.blue := (Library.summoning card).entries.map fun e =>
      e.instantiate (Library.copyId e.name 1)
    decks.orange := [] }

theorem builtFrom_summoning (card : Target) :
    (summoning card).BuiltFrom (.summoning card) ⟨["Summons", "Robot"], []⟩ := ⟨rfl, rfl⟩

/-- Blue plays a card that makes a robot, and there is one card more. -/
theorem Mints.no_card_twice_token :
    ∃ (s : MatchSetup) (m m' : Match) (trace : List Happening),
      s = summoning (.generateCard .robot ⟨some 1, 1, some 1⟩ none) ∧
      (∃ l names, s.BuiltFrom l names) ∧ s.Mints m ∧ (∀ id, m.copies id ≤ 1) ∧
      m.submitTraced Match.maxDepth (.playCard .blue "blue/Summons#1" none) = .ok (m', trace) ∧
      m'.Accepted ∧ Minting trace ∧ m'.board.ids.length = 3 ∧ s.Mints m' ∧
      (∀ id, m'.copies id ≤ 1) ∧
      ∃ ns : List Nat, ns.Nodup ∧ (∀ n ∈ ns, m.lastId < n ∧ n ≤ m'.lastId) ∧
        ∀ id, m'.copies id = m.copies id + (ns.map tokenId).count id := by
  have hbuilt := builtFrom_summoning (.generateCard .robot ⟨some 1, 1, some 1⟩ none)
  have hrun : ((summoning (.generateCard .robot ⟨some 1, 1, some 1⟩ none)).start.holds fun m =>
      (m.submitTraced Match.maxDepth (.playCard .blue "blue/Summons#1" none)).holds fun x =>
        x.1.refusal.isNone && x.1.pending.isNone && x.2.all (·.mints) &&
          x.1.board.ids.length == 3) = true := by
    decide +kernel
  obtain ⟨m, hstart, hrun⟩ := Outcome.exists_of_holds hrun
  obtain ⟨⟨m', trace⟩, hplay, hend⟩ := Outcome.exists_of_holds hrun
  simp only [Bool.and_eq_true, Option.isNone_iff_eq_none, beq_iff_eq] at hend
  obtain ⟨⟨haccepted, hall⟩, hlength⟩ := hend
  have hminting : Minting trace := List.all_eq_true.1 hall
  have hm : Mints _ m := .start hstart
  have hm' : Mints _ m' := hm.next hplay fun _ => hminting
  obtain ⟨honce, hadds⟩ := hm.no_card_twice hbuilt
  exact ⟨_, m, m', trace, rfl, ⟨_, _, hbuilt⟩, hm, honce, hplay, haccepted, hminting, hlength, hm',
    (hm'.no_card_twice hbuilt).1, hadds _ _ m' trace hplay fun _ => hminting⟩

/-- Blue plays a card that puts a robot from the hand on the board, and the robot stays in the hand,
too. -/
theorem two_of_a_card :
    ∃ (s : MatchSetup) (m m' : Match) (trace : List Happening),
      s = summoning (.cardsInHand .selfPlayer (.only .robot)) ∧
      s.BuiltFrom (.summoning (.cardsInHand .selfPlayer (.only .robot)))
        ⟨["Summons", "Robot"], []⟩ ∧
      s.start = .ok m ∧
      m.submitTraced Match.maxDepth (.playCard .blue "blue/Summons#1" none) = .ok (m', trace) ∧
      m'.Reachable ∧ m'.Accepted ∧ m'.copies "blue/Robot#1" = 2 := by
  have hrun : ((summoning (.cardsInHand .selfPlayer (.only .robot))).start.holds fun m =>
      (m.submitTraced Match.maxDepth (.playCard .blue "blue/Summons#1" none)).holds fun x =>
        x.1.refusal.isNone && x.1.pending.isNone && x.1.copies "blue/Robot#1" == 2) = true := by
    decide +kernel
  obtain ⟨m, hstart, hrun⟩ := Outcome.exists_of_holds hrun
  obtain ⟨⟨m', trace⟩, hplay, hend⟩ := Outcome.exists_of_holds hrun
  simp only [Bool.and_eq_true, Option.isNone_iff_eq_none, beq_iff_eq] at hend
  obtain ⟨haccepted, hcopies⟩ := hend
  exact ⟨_, m, m', trace, rfl, builtFrom_summoning _, hstart, hplay,
    (Match.Reachable.start hstart).next hplay, haccepted, hcopies⟩

end MatchSetup
end HexDuel
