import HexDuel.Library
import HexDuel.Proofs.Labels
import HexDuel.Proofs.Speech

/-!
Matches that are stored and restored: every part of a match whose numbers fit is read back from what
is written for it. Of the generator the place in the stream is cut to 64 bits.
-/

set_option autoImplicit false

namespace HexDuel

open Json (Codes)

/-! ### Cards and collections -/

theorem StatAdjustment.codes {a : StatAdjustment} (h : a.Fits) : Codes decode a.encode a := by
  have hability := Json.codes_nat64 h.ability
  have hstat := Json.codes_option (o := a.stat) rfl fun stat _ => stat.codes
  have hadjustment := Adjustment.codes h.adjustment
  exact ⟨by simp [encode, hability.plain, hstat.plain, hadjustment.plain],
    Json.reads_three _ hability.decode hstat.decode hadjustment.decode⟩

theorem Card.codes {c : Card} (h : c.Abides .plain) : Codes decode c.encode c := by
  have hid := Json.codes_text c.id
  have hname := Json.codes_text c.name
  have htype := c.type.codes
  have hbaseCost := Json.codes_int32 h.baseCost
  have hcost := Json.codes_int32 h.cost
  have hstats := Json.codes_option rfl fun s hs => Stats.codes (h.stats s hs)
  have htext := Json.codes_text c.text
  have hsentences := Json.codes_list fun s hs => Sentence.codes (h.sentences s hs)
  have horigin := c.origin.codes
  have hadjustments := Json.codes_list fun a ha => StatAdjustment.codes (h.costAdjustments a ha)
  exact ⟨by simp [encode, htype.plain, hbaseCost.plain, hcost.plain, hstats.plain,
      hsentences.plain, horigin.plain, hadjustments.plain],
    Json.reads_record rfl (by decide) <|
      hid.next <| hname.next <| htype.next <| hbaseCost.next <| hcost.next <| hstats.next <|
      htext.next <| hsentences.next <| horigin.next <| hadjustments.next rfl⟩

structure CardEntry.Fits (d : CardEntry) : Prop where
  cost : Fits32 d.cost
  stats : ∀ s ∈ d.stats, s.Fits
  sentences : ∀ s ∈ d.sentences, s.Fits

theorem CardEntry.codes {d : CardEntry} (h : d.Fits) : Codes decode d.encode d := by
  have hname := Json.codes_text d.name
  have htype := d.type.codes
  have hcost := Json.codes_int32 h.cost
  have hstats := Json.codes_option rfl fun s hs => Stats.codes (h.stats s hs)
  have htext := Json.codes_text d.text
  have hsentences := Json.codes_list fun s hs => Sentence.codes (h.sentences s hs)
  have horigin := d.origin.codes
  exact ⟨by simp [encode, htype.plain, hcost.plain, hstats.plain, hsentences.plain, horigin.plain],
    Json.reads_record rfl (by decide) <|
      hname.next <| htype.next <| hcost.next <| hstats.next <| htext.next <| hsentences.next <|
      horigin.next rfl⟩

/-- A library that is written is read back. -/
theorem Library.parse_compact {entries : List CardEntry} (h : ∀ d ∈ entries, d.Fits)
    (hheight : (Json.ofList CardEntry.encode entries).height ≤ Json.maxDepth) :
    parse (Json.ofList CardEntry.encode entries).compact = ofEntries entries := by
  have hentries := Json.codes_list fun d hd => CardEntry.codes (h d hd)
  simp only [parse, Json.parse_compact hentries.plain hheight, Option.bind_some, hentries.decode]

theorem Json.codes_cards {cards : List Card} (h : ∀ c ∈ cards, c.Abides .plain) :
    Codes (Json.list? Card.decode) (.ofList Card.encode cards) cards :=
  Json.codes_list fun c hc => Card.codes (h c hc)

theorem Json.codes_ids {ids : List Nat} (h : ∀ id ∈ ids, FitsId id) :
    Codes (Json.list? Json.nat64?) (.ofList .ofNat ids) ids :=
  Json.codes_list fun id hid => Json.codes_nat64 (h id hid)

theorem Json.codes_hexes {hexes : List Hex} (h : ∀ x ∈ hexes, x.Fits) :
    Codes (Json.list? Hex.decode) (.ofList Hex.encode hexes) hexes :=
  Json.codes_list fun x hx => Hex.codes (h x hx)

theorem CollectionKind.named?_name (k : CollectionKind) :
    Json.named? name all (.str k.name) = some k := by cases k <;> decide

theorem Collection.kindComesLater_eq (kind entries : Json) :
    kindComesLater (.obj [("kind", kind), ("entries", entries)]) = false := rfl

theorem Collection.codes {c : Collection} (h : c.Abides .plain) : Codes decode c.encode c := by
  cases c with
  | cards xs =>
    have hxs := Json.codes_cards h
    exact ⟨by simp [encode, hxs.plain], by simp [encode, decode, kind, kindComesLater_eq,
      CollectionKind.named?_name, hxs.decode]⟩
  | pieces ids =>
    have hids := Json.codes_ids h
    exact ⟨by simp [encode, hids.plain], by simp [encode, decode, kind, kindComesLater_eq,
      CollectionKind.named?_name, hids.decode]⟩
  | players xs =>
    have hxs := Json.codes_list fun c (_ : c ∈ xs) => Color.codes c
    exact ⟨by simp [encode, hxs.plain], by simp [encode, decode, kind, kindComesLater_eq,
      CollectionKind.named?_name, hxs.decode]⟩
  | hexes xs =>
    have hxs := Json.codes_hexes h
    exact ⟨by simp [encode, hxs.plain], by simp [encode, decode, kind, kindComesLater_eq,
      CollectionKind.named?_name, hxs.decode]⟩

/-! ### Abilities and objects -/

theorem Json.codes_source {source : Option Nat} (h : ∀ n ∈ source, FitsId n) :
    Codes (Json.option? Json.nat64?) (.ofOption .ofNat source) source :=
  Json.codes_option rfl fun n hn => Json.codes_nat64 (h n hn)

theorem Json.codes_acts {actions : List Action} (h : ActionsFit actions) :
    Codes (Json.list? Action.decode) (.ofList Action.encode actions) actions :=
  Json.codes_list fun a ha => Action.codes (actionsFit_iff.1 h a ha)

theorem Passive.codes {a : Passive} (h : a.Abides .plain) : Codes decode a.encode a := by
  have hid := Json.codes_nat64 h.id
  have hsource := Json.codes_source h.source
  have htargets := Target.codes h.admits.1
  have heffect := PassiveEffect.codes h.admits.2.1
  have hduration := Json.codes_duration h.duration
  have hdisabled := Json.codes_bool a.disabled
  have happlied := Json.codes_option rfl fun c hc => Collection.codes (h.applied c hc)
  exact ⟨by simp [encode, hid.plain, hsource.plain, htargets.plain, heffect.plain,
      hduration.plain, happlied.plain],
    Json.reads_record rfl (by decide) <|
      hid.next <| hsource.next <| htargets.next <| heffect.next <| hduration.next <|
      hdisabled.next <| happlied.next rfl⟩

theorem Trigger.codes {t : Trigger} (h : t.Abides .plain) : Codes decode t.encode t := by
  have hid := Json.codes_nat64 h.id
  have hsource := Json.codes_source h.source
  have hspec := TriggerSpec.codes h.admits.1
  have hactions := Json.codes_acts h.admits.2.1
  have hoverrides := Json.codes_bool t.overrides
  have hduration := Json.codes_duration h.duration
  have hdisabled := Json.codes_bool t.disabled
  exact ⟨by simp [encode, hid.plain, hsource.plain, hspec.plain, hactions.plain, hduration.plain],
    Json.reads_record rfl (by decide) <|
      hid.next <| hsource.next <| hspec.next <| hactions.next <| hoverrides.next <|
      hduration.next <| hdisabled.next rfl⟩

theorem Activation.codes {a : Activation} (h : a.Abides .plain) : Codes decode a.encode a := by
  have hability := Json.codes_nat64 h.ability
  have htext := Json.codes_text a.text
  have hactions := Json.codes_acts h.admits
  exact ⟨by simp [encode, hability.plain, hactions.plain],
    Json.reads_three _ hability.decode htext.decode hactions.decode⟩

theorem StatusKind.codes {k : StatusKind} (h : k.Fits) : Codes decode k.encode k := by
  cases k with
  | canOnlyAttack defenders =>
    have hdefenders := Json.codes_ids h
    exact ⟨by simp [encode, hdefenders.plain], Json.reads_one _ hdefenders.decode⟩
  | _ => exact ⟨trivial, rfl⟩

theorem Status.codes {s : Status} (h : s.Fits) : Codes decode s.encode s := by
  have hability := Json.codes_nat64 h.ability
  have hkind := StatusKind.codes h.kind
  exact ⟨by simp [encode, hability.plain, hkind.plain],
    Json.reads_two _ hability.decode hkind.decode⟩

theorem Piece.codes {p : Piece} (h : p.Abides .plain) : Codes decode p.encode p := by
  have hid := Json.codes_nat64 h.id
  have hcard := Card.codes h.card
  have howner := p.owner.codes
  have hhex := Hex.codes h.hex
  have hstats := Stats.codes h.stats
  have hpassives := Json.codes_list fun a ha => Passive.codes (h.passives a ha)
  have htriggers := Json.codes_list fun t ht => Trigger.codes (h.triggers t ht)
  have hactivations := Json.codes_list fun a ha => Activation.codes (h.activations a ha)
  have hstatuses := Json.codes_list fun s hs => Status.codes (h.statuses s hs)
  have hadjustments := Json.codes_list fun a ha => StatAdjustment.codes (h.adjustments a ha)
  have hmovesMade := Json.codes_int32 h.movesMade
  have flag := Json.codes_bool
  exact ⟨by simp [encode, hid.plain, hcard.plain, howner.plain, hhex.plain, hstats.plain,
      hpassives.plain, htriggers.plain, hactivations.plain, hstatuses.plain, hadjustments.plain,
      hmovesMade.plain],
    Json.reads_record rfl (by decide) <|
      hid.next <| hcard.next <| howner.next <| hhex.next <| hstats.next <| hpassives.next <|
      htriggers.next <| hactivations.next <| hstatuses.next <| hadjustments.next <|
      hmovesMade.next <| (flag p.cantMove).next <| (flag p.cantAttack).next <|
      (flag p.cantActivate).next <| (flag p.attackedThisTurn).next <|
      (flag p.movedThisTurn).next <| (flag p.attackedLastTurn).next <|
      (flag p.movedLastTurn).next <| (flag p.justPlayed).next <| (flag p.condemned).next <|
      (flag p.falling).next rfl⟩

namespace Board

theorem plain_members {es : List (PieceId × Piece)} (h : ∀ e ∈ es, e.2.Abides .plain) :
    (Json.obj (es.map fun (id, p) => (toString id, p.encode))).Plain := by
  induction es with
  | nil => trivial
  | cons e es ih =>
    obtain ⟨hfirst, hrest⟩ := List.forall_mem_cons.1 h
    exact ⟨(Piece.codes hfirst).plain, ih hrest⟩

theorem decodeEntry_member {e : PieceId × Piece} (h : FitsId e.1 ∧ e.2.Abides .plain) :
    decodeEntry (toString e.1, e.2.encode) = some e := by
  simp only [decodeEntry, idOfName_toString h.1, (Piece.codes h.2).decode]
  rfl

/-- An object whose id is above all others comes last. -/
theorem insertEntry_above {id : PieceId} {p : Piece} {es : List (PieceId × Piece)}
    (h : ∀ e ∈ es, e.1 < id) : insertEntry id p es = es ++ [(id, p)] := by
  induction es with
  | nil => rfl
  | cons e es ih =>
    obtain ⟨k, q⟩ := e
    obtain ⟨hfirst, hrest⟩ := List.forall_mem_cons.1 h
    rw [insertEntry, if_neg (Nat.lt_asymm hfirst), if_neg (Nat.ne_of_gt hfirst), ih hrest]
    rfl

theorem foldl_insert {es : List (PieceId × Piece)} {b : Board}
    (h : (b.entries ++ es).Pairwise fun e e' => e.1 < e'.1) :
    es.foldl (fun b e => b.insert e.1 e.2) b = ⟨b.entries ++ es⟩ := by
  induction es generalizing b with
  | nil => simp
  | cons e es ih =>
    have hbelow : ∀ e' ∈ b.entries, e'.1 < e.1 := fun e' he' =>
      (List.pairwise_append.1 h).2.2 e' he' e List.mem_cons_self
    have hinsert : b.insert e.1 e.2 = ⟨b.entries ++ [e]⟩ := by
      rw [insert, insertEntry_above hbelow]
    rw [List.foldl_cons, hinsert, ih (by simpa using h)]
    simp

theorem decodeEntries_members {b : Board} (h : b.Abides .plain) :
    decodeEntries (.obj (b.entries.map fun (id, p) => (toString id, p.encode))) = some b := by
  have hentries : (b.entries.map fun (id, p) => (toString id, p.encode)).mapM decodeEntry =
      some b.entries :=
    Json.mapM_eq_some_of_forall fun e he => decodeEntry_member (h.entries e he)
  have hascending : (empty.entries ++ b.entries).Pairwise fun e e' => e.1 < e'.1 :=
    List.pairwise_map.1 h.ascending
  rw [decodeEntries, hentries, Option.bind_eq_bind, Option.bind_some, foldl_insert hascending]
  rfl

theorem codes {b : Board} (h : b.Abides .plain) : Codes decode b.encode b := by
  refine ⟨⟨plain_members fun e he => (h.entries e he).2, trivial⟩, ?_⟩
  have hrecord : b.encode.record? ["objects"] = some [.given
      (.obj (b.entries.map fun (id, p) => (toString id, p.encode)))] :=
    Json.record?_obj rfl (by decide)
  rw [decode, hrecord]
  exact decodeEntries_members h

end Board

/-! ### Seats -/

theorem Energy.codes {e : Energy} (h : e.Fits) : Codes decode e.encode e := by
  have havailable := Json.codes_int32 h.available
  have htotal := Json.codes_int32 h.total
  exact ⟨by simp [encode, havailable.plain, htotal.plain],
    Json.reads_two _ havailable.decode htotal.decode⟩

theorem Choice.codes {c : Choice} (h : c.Fits) : Codes decode c.encode c := by
  cases c with
  | hex x =>
    have hx := Hex.codes h
    exact ⟨by simp [encode, hx.plain], Json.reads_one _ hx.decode⟩
  | card id =>
    have hid := Json.codes_text id
    exact ⟨by simp [encode], Json.reads_one _ hid.decode⟩

theorem Selection.codes {s : Selection} (h : s.Fits) : Codes decode s.encode s := by
  have hchoosing := Json.codes_bool s.choosing
  have hhexes := Json.codes_hexes h.hexes
  have hcards := Json.codes_list fun id (_ : id ∈ s.cards) => Json.codes_text id
  have hchosen := Json.codes_list fun c hc => Choice.codes (h.chosen c hc)
  exact ⟨by simp [encode, hhexes.plain, hcards.plain, hchosen.plain],
    Json.reads_record rfl (by decide) <|
      hchoosing.next <| hhexes.next <| hcards.next <| hchosen.next rfl⟩

theorem Seat.codes {s : Seat} (h : s.Abides .plain) : Codes decode s.encode s := by
  have hcolor := s.color.codes
  have hhand := Json.codes_cards h.hand
  have hdeck := Json.codes_cards h.deck
  have hdiscard := Json.codes_cards h.discard
  have henergy := Energy.codes h.energy
  have hselection := Selection.codes h.selection
  have hstatus := Json.codes_text s.status
  exact ⟨by simp [encode, hcolor.plain, hhand.plain, hdeck.plain, hdiscard.plain, henergy.plain,
      hselection.plain],
    Json.reads_record rfl (by decide) <|
      hcolor.next <| hhand.next <| hdeck.next <| hdiscard.next <| henergy.next <|
      hselection.next <| hstatus.next rfl⟩

theorem PerSide.codes {α : Type} {decode : Json → Option α} {encode : α → Json} {p : PerSide α}
    (h : ∀ c, Codes decode (encode (p.get c)) (p.get c)) :
    Codes (PerSide.decode decode) (p.encode encode) p := by
  have hblue : Codes decode (encode p.blue) p.blue := h .blue
  have horange : Codes decode (encode p.orange) p.orange := h .orange
  exact ⟨by simp [PerSide.encode, hblue.plain, horange.plain],
    Json.reads_two _ hblue.decode horange.decode⟩

/-! ### Matches -/

theorem Limits.codes {l : Limits} (h : l.Fits) : Codes decode l.encode l := by
  have hmaxHandSize := Json.codes_nat64 h.maxHandSize
  have hstartingHandSize := Json.codes_nat64 h.startingHandSize
  have hmaxEnergy := Json.codes_int32 h.maxEnergy
  have hcoreHealth := Json.codes_int32 h.coreHealth
  exact ⟨by simp [encode, hmaxHandSize.plain, hstartingHandSize.plain, hmaxEnergy.plain,
      hcoreHealth.plain],
    Json.reads_record rfl (by decide) <|
      hmaxHandSize.next <| hstartingHandSize.next <| hmaxEnergy.next <| hcoreHealth.next rfl⟩

theorem LogEntry.codes {e : LogEntry} (h : e.Abides .plain) : Codes decode e.encode e := by
  have hplayer := Json.codes_option (o := e.player) rfl fun c _ => c.codes
  have htext := Json.codes_text e.text
  have htime := Json.codes_int64 h.time
  have hcards := Json.codes_cards h.cards
  exact ⟨by simp [encode, hplayer.plain, htime.plain, hcards.plain],
    Json.reads_record rfl (by decide) <|
      hplayer.next <| htext.next <| htime.next <| hcards.next rfl⟩

theorem Animation.codes {a : Animation} (h : a.Fits) : Codes decode a.encode a := by
  cases a with
  | move start goal | attack start goal =>
    have hstart := Hex.codes h.1
    have hgoal := Hex.codes h.2
    exact ⟨by simp [encode, hstart.plain, hgoal.plain],
      Json.reads_two _ hstart.decode hgoal.decode⟩

theorem Resumption.codes {r : Resumption} (h : r.Fits) : Codes decode r.encode r := by
  cases r with
  | playCard card hex =>
    have hcard := Json.codes_text card
    have hhex := Json.codes_option rfl fun x hx => Hex.codes (h x hx)
    exact ⟨by simp [encode, hhex.plain], Json.reads_two _ hcard.decode hhex.decode⟩
  | movePiece start goal | attackPiece start goal =>
    have hstart := Hex.codes h.1
    have hgoal := Hex.codes h.2
    exact ⟨by simp [encode, hstart.plain, hgoal.plain],
      Json.reads_two _ hstart.decode hgoal.decode⟩
  | activateAbility hex index =>
    have hhex := Hex.codes h.1
    have hindex := Json.codes_nat64 h.2
    exact ⟨by simp [encode, hhex.plain, hindex.plain],
      Json.reads_two _ hhex.decode hindex.decode⟩

theorem Prompt.codes {p : Prompt} (h : p.resumption.Fits) : Codes decode p.encode p := by
  have hplayer := p.player.codes
  have hresumption := Resumption.codes h
  exact ⟨by simp [encode, hplayer.plain, hresumption.plain],
    Json.reads_two _ hplayer.decode hresumption.decode⟩

theorem Rejection.codes {r : Rejection} (h : r.Fits) : Codes decode r.encode r := by
  cases r with
  | notEnoughEnergy needed available =>
    have hneeded := Json.codes_int32 h.1
    have havailable := Json.codes_int32 h.2
    exact ⟨by simp [encode, hneeded.plain, havailable.plain],
      Json.reads_two _ hneeded.decode havailable.decode⟩
  | illegalPlacement hex | noPiece hex | illegalMove hex | illegalAttack hex =>
    have hhex := Hex.codes (h := hex) h
    exact ⟨by simp [encode, hhex.plain], Json.reads_one _ hhex.decode⟩
  | _ => exact ⟨trivial, rfl⟩

/-- The generator as it is stored. -/
def Generator.stored (g : Generator) : Generator := ⟨g.seed, g.cursor⟩

theorem Generator.stored_of_lt {g : Generator} (h : g.position < Width.end64) : g.stored = g := by
  simp [stored, cursor, Nat.mod_eq_of_lt h]

theorem Generator.codes {g : Generator} (h : g.seed < Width.end64) :
    Codes decode g.encode g.stored := by
  have hseed := Json.codes_nat64 h
  have hcursor := Json.codes_nat64 (n := g.cursor) (Nat.mod_lt _ (by decide))
  exact ⟨by simp [encode, hseed.plain, hcursor.plain],
    Json.reads_two _ hseed.decode hcursor.decode⟩

/-- The match as it is stored. -/
def Match.stored (m : Match) : Match := { m with random := m.random.stored }

theorem Match.codes {m : Match} (h : m.Abides .plain) : Codes decode m.encode m.stored := by
  have hturn := m.turn.codes
  have hseats := PerSide.codes fun c => Seat.codes (h.seats c)
  have husernames := PerSide.codes (p := m.usernames) fun c => Json.codes_text (m.usernames.get c)
  have hformat := m.format.codes
  have hlimits := Limits.codes h.limits
  have hviewpoint := m.viewpoint.codes
  have hboard := Board.codes h.board
  have hrandom := Generator.codes h.seed
  have hlastId := Json.codes_nat64 h.lastId
  have hturnNumber := Json.codes_nat32 h.turnNumber
  have hlog := Json.codes_list fun e he => LogEntry.codes (h.log e he)
  have hsounds := Json.codes_list fun s (_ : s ∈ m.sounds) => Json.codes_text s
  have hanimations := Json.codes_list fun a ha => Animation.codes (h.animations a ha)
  have hwinner := Json.codes_option (o := m.winner) rfl fun c _ => c.codes
  have hpending := Json.codes_option rfl fun p hp => Prompt.codes (h.pending p hp)
  have heventResolving := Json.codes_bool m.eventResolving
  have hrefusal := Json.codes_option rfl fun r hr => Rejection.codes (h.refusal r hr)
  exact ⟨by simp [encode, hturn.plain, hseats.plain, husernames.plain, hformat.plain,
      hlimits.plain, hviewpoint.plain, hboard.plain, hrandom.plain, hlastId.plain,
      hturnNumber.plain, hlog.plain, hsounds.plain, hanimations.plain, hwinner.plain,
      hpending.plain, hrefusal.plain],
    Json.reads_record rfl (by decide) <|
      hturn.next <| hseats.next <| husernames.next <| hformat.next <| hlimits.next <|
      hviewpoint.next <| hboard.next <| hrandom.next <| hlastId.next <| hturnNumber.next <|
      hlog.next <| hsounds.next <| hanimations.next <| hwinner.next <| hpending.next <|
      heventResolving.next <| hrefusal.next rfl⟩

end HexDuel
