import HexDuel.Proofs.Phrasing

/-!
Actions and sentences that are written and read back. What an action gives or does on a condition
nests as deeply as its value is high.
-/

set_option autoImplicit false

namespace HexDuel

open Json (Codes)

theorem Json.codes_duration {duration : Option Nat} (h : ∀ n ∈ duration, FitsCount n) :
    Codes (Json.option? Json.nat32?) (.ofOption .ofNat duration) duration :=
  Json.codes_option rfl fun n hn => Json.codes_nat32 (h n hn)

mutual

theorem Action.codesWithin (a : Action) (h : a.Fits) (depth : Nat) (hd : a.encode.height < depth) :
    Codes (Action.decodeWithin depth) a.encode a := by
  obtain _ | depth := depth
  · exact absurd hd (Nat.not_lt_zero _)
  cases a with
  | moveAgain target | moveAndAttackAgain target | destroy target | discard target
  | returnToHand target =>
    have htarget := Target.codes h
    exact ⟨by simp [Action.encode, htarget.plain],
      Json.reads_one _ htarget.decode⟩
  | dealDamage target number | draw target number =>
    have htarget := Target.codes h.1
    have hnumber := Number.codes h.2
    exact ⟨by simp [Action.encode, htarget.plain, hnumber.plain],
      Json.reads_two _ htarget.decode hnumber.decode⟩
  | endTurn => exact ⟨trivial, rfl⟩
  | giveAbility target ability duration =>
    simp [Action.encode] at hd
    have htarget := Target.codes h.1
    have hability := Sentence.codesWithin ability h.2.1 depth (by omega)
    have hduration := Json.codes_duration h.2.2
    exact ⟨by simp [Action.encode, htarget.plain, hability.plain, hduration.plain],
      Json.reads_three _ htarget.decode hability.decode hduration.decode⟩
  | modifyAttribute target scope modifier =>
    have htarget := Target.codes h.1
    have hscope := scope.codes
    have hmodifier := Modifier.codes h.2
    exact ⟨by simp [Action.encode, htarget.plain, hscope.plain, hmodifier.plain],
      Json.reads_three _ htarget.decode hscope.decode hmodifier.decode⟩
  | modifyEnergy player modifier =>
    have hplayer := Target.codes h.1
    have hmodifier := Modifier.codes h.2
    exact ⟨by simp [Action.encode, hplayer.plain, hmodifier.plain],
      Json.reads_two _ hplayer.decode hmodifier.decode⟩
  | restoreHealth target amount =>
    have htarget := Target.codes h.1
    have hamount := Json.codes_option (o := amount) rfl fun n hn => Number.codes (h.2 n hn)
    exact ⟨by simp [Action.encode, htarget.plain, hamount.plain],
      Json.reads_two _ htarget.decode hamount.decode⟩
  | setAttribute target scope value =>
    have htarget := Target.codes h.1
    have hscope := scope.codes
    have hvalue := Number.codes h.2
    exact ⟨by simp [Action.encode, htarget.plain, hscope.plain, hvalue.plain],
      Json.reads_three _ htarget.decode hscope.decode hvalue.decode⟩
  | swapAttributes target first second =>
    have htarget := Target.codes h
    have hfirst := first.codes
    have hsecond := second.codes
    exact ⟨by simp [Action.encode, htarget.plain, hfirst.plain, hsecond.plain],
      Json.reads_three _ htarget.decode hfirst.decode hsecond.decode⟩
  | takeControl first second | movePiece first second =>
    have hfirst := Target.codes h.1
    have hsecond := Target.codes h.2
    exact ⟨by simp [Action.encode, hfirst.plain, hsecond.plain],
      Json.reads_two _ hfirst.decode hsecond.decode⟩
  | spawnPiece card hex owner =>
    have hcard := Target.codes h.1
    have hhex := Target.codes h.2.1
    have howner := Target.codes h.2.2
    exact ⟨by simp [Action.encode, hcard.plain, hhex.plain, howner.plain],
      Json.reads_three _ hcard.decode hhex.decode howner.decode⟩
  | ifHolds condition actions =>
    simp [Action.encode] at hd
    have hcondition := StateCondition.codes h.1
    have hactions := codes_actions actions h.2 depth (by omega)
    exact ⟨by simp [Action.encode, hcondition.plain, hactions.plain, -Json.plain_arr],
      Json.reads_two _ hcondition.decode hactions.decode⟩

theorem Sentence.codesWithin (s : Sentence) (h : s.Fits) (depth : Nat)
    (hd : s.encode.height < depth) : Codes (Sentence.decodeWithin depth) s.encode s := by
  obtain _ | depth := depth
  · exact absurd hd (Nat.not_lt_zero _)
  cases s with
  | actions list =>
    simp [Sentence.encode] at hd
    have hlist := codes_actions list h depth (by omega)
    exact ⟨by simp [Sentence.encode, hlist.plain, -Json.plain_arr],
      Json.reads_one _ hlist.decode⟩
  | setAbility phrase =>
    simp [Sentence.encode] at hd
    have hphrase := PassivePhrase.codesWithin phrase h depth (by omega)
    exact ⟨by simp [Sentence.encode, hphrase.plain],
      Json.reads_one _ hphrase.decode⟩
  | setTrigger phrase =>
    simp [Sentence.encode] at hd
    have hphrase := TriggerPhrase.codesWithin phrase h depth (by omega)
    exact ⟨by simp [Sentence.encode, hphrase.plain],
      Json.reads_one _ hphrase.decode⟩

theorem PassiveEffect.codesWithin (e : PassiveEffect) (h : e.Fits) (depth : Nat)
    (hd : e.encode.height < depth) : Codes (PassiveEffect.decodeWithin depth) e.encode e := by
  obtain _ | depth := depth
  · exact absurd hd (Nat.not_lt_zero _)
  cases e with
  | adjust scope modifier =>
    have hscope := scope.codes
    have hmodifier := Modifier.codes h
    exact ⟨by simp [PassiveEffect.encode, hscope.plain, hmodifier.plain],
      Json.reads_two _ hscope.decode hmodifier.decode⟩
  | status phrase =>
    have hphrase := StatusPhrase.codes h
    exact ⟨by simp [PassiveEffect.encode, hphrase.plain],
      Json.reads_one _ hphrase.decode⟩
  | grant ability =>
    simp [PassiveEffect.encode] at hd
    have hability := Sentence.codesWithin ability h depth (by omega)
    exact ⟨by simp [PassiveEffect.encode, hability.plain],
      Json.reads_one _ hability.decode⟩
  | activated text actions =>
    simp [PassiveEffect.encode] at hd
    have htext := Json.codes_text text
    have hactions := codes_actions actions h depth (by omega)
    exact ⟨by simp [PassiveEffect.encode, hactions.plain, -Json.plain_arr],
      Json.reads_two _ htext.decode hactions.decode⟩

theorem PassivePhrase.codesWithin (p : PassivePhrase) (h : p.Fits) (depth : Nat)
    (hd : p.encode.height < depth) : Codes (PassivePhrase.decodeWithin depth) p.encode p := by
  obtain _ | depth := depth
  · exact absurd hd (Nat.not_lt_zero _)
  obtain ⟨targets, effect, duration⟩ := p
  simp [PassivePhrase.encode] at hd
  have htargets := Target.codes h.1
  have heffect := PassiveEffect.codesWithin effect h.2.1 depth (by omega)
  have hduration := Json.codes_duration h.2.2
  exact ⟨by simp [PassivePhrase.encode, htargets.plain, heffect.plain, hduration.plain],
    Json.reads_three _ htargets.decode heffect.decode hduration.decode⟩

theorem TriggerPhrase.codesWithin (t : TriggerPhrase) (h : t.Fits) (depth : Nat)
    (hd : t.encode.height < depth) : Codes (TriggerPhrase.decodeWithin depth) t.encode t := by
  obtain _ | depth := depth
  · exact absurd hd (Nat.not_lt_zero _)
  obtain ⟨trigger, actions, overrides, duration⟩ := t
  simp [TriggerPhrase.encode] at hd
  have htrigger := TriggerSpec.codes h.1
  have hactions := codes_actions actions h.2.1 depth (by omega)
  have hoverrides := Json.codes_bool overrides
  have hduration := Json.codes_duration h.2.2
  exact ⟨by simp [TriggerPhrase.encode, htrigger.plain, hactions.plain, hduration.plain,
      -Json.plain_arr],
    Json.reads_record rfl (by decide) <|
      htrigger.next <| hactions.next <| hoverrides.next <| hduration.next rfl⟩

theorem codes_actions (as : List Action) (h : ActionsFit as) (depth : Nat)
    (hd : Json.heightItems (encodeActions as) < depth) :
    Codes (Json.list? (Action.decodeWithin depth)) (.arr (encodeActions as)) as := by
  cases as with
  | nil => exact ⟨trivial, rfl⟩
  | cons a as =>
    simp only [encodeActions, Json.heightItems] at hd
    have hfirst := Action.codesWithin a h.1 depth (by omega)
    have hrest := codes_actions as h.2 depth (by omega)
    exact hfirst.cons hrest

end

theorem Action.codes {a : Action} (h : a.Fits) : Codes decode a.encode a :=
  have hcodes := a.codesWithin h _ (Nat.lt_succ_self _)
  ⟨hcodes.plain, hcodes.decode⟩

theorem Sentence.codes {s : Sentence} (h : s.Fits) : Codes decode s.encode s :=
  have hcodes := s.codesWithin h _ (Nat.lt_succ_self _)
  ⟨hcodes.plain, hcodes.decode⟩

theorem PassiveEffect.codes {e : PassiveEffect} (h : e.Fits) : Codes decode e.encode e :=
  have hcodes := e.codesWithin h _ (Nat.lt_succ_self _)
  ⟨hcodes.plain, hcodes.decode⟩

end HexDuel
