import HexDuel.Proofs.Codes

/-!
Phrases that are written and read back: targets, conditions and numbers, then actions and sentences.
Each is read with as much depth as its value is high.
-/

set_option autoImplicit false

namespace HexDuel

open Json (Codes)

theorem Adjustment.codes {a : Adjustment} (h : a.Fits) : Codes decode a.encode a := by
  cases a with
  | _ n =>
    have hn := Json.codes_int32 (i := n) h
    exact ⟨by simp [encode, hn.plain], Json.reads_one _ hn.decode⟩

theorem Comparison.codes (c : Comparison) : Codes decode c.encode c := ⟨trivial, decode_encode c⟩

theorem Property.codes (p : Property) : Codes decode p.encode p := ⟨trivial, decode_encode p⟩

theorem EventType.codes (e : EventType) : Codes decode e.encode e := ⟨trivial, decode_encode e⟩

theorem Cause.codes (c : Cause) : Codes decode c.encode c := ⟨trivial, decode_encode c⟩

mutual

theorem Target.codesWithin (t : Target) (h : t.Fits) (depth : Nat) (hd : t.encode.height < depth) :
    Codes (Target.decodeWithin depth) t.encode t := by
  obtain _ | depth := depth
  · exact absurd hd (Nat.not_lt_zero _)
  cases t with
  | cardsInHand player types =>
    simp [Target.encode] at hd
    have hplayer := Target.codesWithin player h depth (by omega)
    have htypes := types.codes
    exact ⟨by simp [Target.encode, hplayer.plain, htypes.plain],
      Json.reads_two _ hplayer.decode htypes.decode⟩
  | piecesInPlay types =>
    have htypes := types.codes
    exact ⟨by simp [Target.encode, htypes.plain],
      Json.reads_one _ htypes.decode⟩
  | piecesMatching types conditions =>
    simp [Target.encode] at hd
    have htypes := types.codes
    have hconditions := codes_conditions conditions h depth (by omega)
    exact ⟨by simp [Target.encode, htypes.plain, hconditions.plain, -Json.plain_arr],
      Json.reads_two _ htypes.decode hconditions.decode⟩
  | tilesMatching conditions =>
    simp [Target.encode] at hd
    have hconditions := codes_conditions conditions h depth (by omega)
    exact ⟨by simp [Target.encode, hconditions.plain, -Json.plain_arr],
      Json.reads_one _ hconditions.decode⟩
  | all inner | choose inner | controllerOf inner | copyOf inner =>
    simp [Target.encode] at hd
    have hinner := Target.codesWithin inner h depth (by omega)
    exact ⟨by simp [Target.encode, hinner.plain],
      Json.reads_one _ hinner.decode⟩
  | random count pool =>
    simp [Target.encode] at hd
    have hcount := Json.codes_nat64 h.1
    have hpool := Target.codesWithin pool h.2 depth (by omega)
    exact ⟨by simp [Target.encode, hcount.plain, hpool.plain],
      Json.reads_two _ hcount.decode hpool.decode⟩
  | generateCard type stats name =>
    have htype := type.codes
    have hstats := Stats.codes h
    have hname := Json.codes_option (o := name) rfl fun s _ => Json.codes_text s
    exact ⟨by simp [Target.encode, htype.plain, hstats.plain, hname.plain],
      Json.reads_three _ htype.decode hstats.decode hname.decode⟩
  | _ => exact ⟨trivial, rfl⟩

theorem Condition.codesWithin (c : Condition) (h : c.Fits) (depth : Nat)
    (hd : c.encode.height < depth) : Codes (Condition.decodeWithin depth) c.encode c := by
  obtain _ | depth := depth
  · exact absurd hd (Nat.not_lt_zero _)
  cases c with
  | adjacentTo target | controlledBy target =>
    simp [Condition.encode] at hd
    have htarget := Target.codesWithin target h depth (by omega)
    exact ⟨by simp [Condition.encode, htarget.plain],
      Json.reads_one _ htarget.decode⟩
  | attributeIs stat comparison value =>
    simp [Condition.encode] at hd
    have hstat := stat.codes
    have hcomparison := comparison.codes
    have hvalue := Number.codesWithin value h depth (by omega)
    exact ⟨by simp [Condition.encode, hstat.plain, hcomparison.plain, hvalue.plain],
      Json.reads_three _ hstat.decode hcomparison.decode hvalue.decode⟩
  | exactDistance distance target | withinDistance distance target =>
    simp [Condition.encode] at hd
    have hdistance := Json.codes_nat32 h.1
    have htarget := Target.codesWithin target h.2 depth (by omega)
    exact ⟨by simp [Condition.encode, hdistance.plain, htarget.plain],
      Json.reads_two _ hdistance.decode htarget.decode⟩
  | hasId id =>
    have hid := Json.codes_nat64 h
    exact ⟨by simp [Condition.encode, hid.plain],
      Json.reads_one _ hid.decode⟩
  | hasProperty property =>
    have hproperty := property.codes
    exact ⟨by simp [Condition.encode, hproperty.plain],
      Json.reads_one _ hproperty.decode⟩
  | unoccupied => exact ⟨trivial, rfl⟩

theorem codes_conditions (cs : List Condition) (h : ConditionsFit cs) (depth : Nat)
    (hd : Json.heightItems (encodeConditions cs) < depth) :
    Codes (Json.list? (Condition.decodeWithin depth)) (.arr (encodeConditions cs)) cs := by
  cases cs with
  | nil => exact ⟨trivial, rfl⟩
  | cons c cs =>
    simp only [encodeConditions, Json.heightItems] at hd
    have hfirst := Condition.codesWithin c h.1 depth (by omega)
    have hrest := codes_conditions cs h.2 depth (by omega)
    exact hfirst.cons hrest

theorem Number.codesWithin (n : Number) (h : n.Fits) (depth : Nat)
    (hd : n.encode.height < depth) : Codes (Number.decodeWithin depth) n.encode n := by
  obtain _ | depth := depth
  · exact absurd hd (Nat.not_lt_zero _)
  cases n with
  | const value =>
    have hvalue := Json.codes_int32 h
    exact ⟨by simp [Number.encode, hvalue.plain],
      Json.reads_one _ hvalue.decode⟩
  | count target =>
    simp [Number.encode] at hd
    have htarget := Target.codesWithin target h depth (by omega)
    exact ⟨by simp [Number.encode, htarget.plain],
      Json.reads_one _ htarget.decode⟩
  | attributeSum target stat | attributeValue target stat =>
    simp [Number.encode] at hd
    have htarget := Target.codesWithin target h depth (by omega)
    have hstat := stat.codes
    exact ⟨by simp [Number.encode, htarget.plain, hstat.plain],
      Json.reads_two _ htarget.decode hstat.decode⟩

end

theorem Target.codes {t : Target} (h : t.Fits) : Codes decode t.encode t :=
  have hcodes := t.codesWithin h _ (Nat.lt_succ_self _)
  ⟨hcodes.plain, hcodes.decode⟩

theorem Number.codes {n : Number} (h : n.Fits) : Codes decode n.encode n :=
  have hcodes := n.codesWithin h _ (Nat.lt_succ_self _)
  ⟨hcodes.plain, hcodes.decode⟩

theorem StateCondition.codes {c : StateCondition} (h : c.Fits) : Codes decode c.encode c := by
  cases c with
  | collectionExists target =>
    have htarget := Target.codes h
    exact ⟨by simp [encode, htarget.plain], Json.reads_one _ htarget.decode⟩
  | targetHasProperty target property =>
    have htarget := Target.codes h
    have hproperty := property.codes
    exact ⟨by simp [encode, htarget.plain, hproperty.plain],
      Json.reads_two _ htarget.decode hproperty.decode⟩

theorem Modifier.codes {m : Modifier} (h : m.Fits) : Codes decode m.encode m := by
  cases m with
  | _ n =>
    have hn := Number.codes (n := n) h
    exact ⟨by simp [encode, hn.plain], Json.reads_one _ hn.decode⟩

theorem StatusPhrase.codes {p : StatusPhrase} (h : p.Fits) : Codes decode p.encode p := by
  cases p with
  | canOnlyAttack target =>
    have htarget := Target.codes h
    exact ⟨by simp [encode, htarget.plain], Json.reads_one _ htarget.decode⟩
  | _ => exact ⟨trivial, rfl⟩

theorem TriggerSpec.codes {t : TriggerSpec} (h : t.targets.Fits) : Codes decode t.encode t := by
  have hevent := t.event.codes
  have htargets := Target.codes h
  have hcause := t.cause.codes
  have htypes := Json.codes_option (o := t.types) rfl fun q _ => q.codes
  exact ⟨by simp [encode, hevent.plain, htargets.plain, hcause.plain, htypes.plain],
    Json.reads_record rfl (by decide) <|
      hevent.next <| htargets.next <| hcause.next <| htypes.next rfl⟩

end HexDuel
