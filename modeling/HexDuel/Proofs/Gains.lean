import HexDuel.Proofs.Tokens
import HexDuel.Proofs.Transit

/-!
What a resolution adds to the cards. An act moves cards from one place to another, and the only ones
that it adds are those that an action puts on the board without taking them from anywhere.
-/

set_option autoImplicit false

namespace HexDuel

/-! ### Errands -/

variable {s s' : Stage}

theorem Resolving.Consulted.rests {c : Collection} {ctx : Context} {x : Collection × Context}
    (h : Resolving.Consulted c ctx s x s') : s.game.Rests s'.game := by
  cases h with
  | answered => exact .setSelection _ _ _
  | waiting => exact .refl _
  | refused => exact .of_seats rfl rfl rfl
  | suspended => exact .setSelection _ _ _

theorem Stage.rests_number (s : Stage) : s.game.Rests s.number.game := .of_seats rfl rfl rfl

/-- Upkeep writes on objects and on the costs of cards. -/
theorem Tending.rests (h : Tending s s') : s.game.Rests s'.game := by
  cases h with
  | inquiry h =>
    cases h with
    | consult _ hc => exact hc.rests
    | _ => exact .of_seats rfl rfl rfl
  | withdrawApplied a => exact .withdrawApplied a s.game
  | dropDisabled =>
    exact (Match.Rests.mapPieces Piece.remains_dropDisabled _).trans (.withdrawAll _ _)
  | inscribe id hf => exact .changePiece id (fun p => (hf.remains p).card) s.game
  | adjustCostOf ability adjustment id =>
    change s.game.Rests (Resolving.adjustCostOf ability adjustment id s.game)
    unfold Resolving.adjustCostOf
    split
    · exact .changeCard _ id (fun card => card.id_adjustCost ability adjustment) s.game
    · exact .refl _
  | @addPassive id a =>
    exact s.rests_number.trans (.changePiece id (f := (·.addPassive a)) (fun _ => rfl) _)
  | @addTrigger id t =>
    exact s.rests_number.trans (.changePiece id (f := (·.addTrigger t)) (fun _ => rfl) _)

theorem rests_of_tended (h : Relation.ReflTransGen Tending s s') : s.game.Rests s'.game := by
  induction h with
  | refl => exact .refl _
  | tail _ hlast ih => exact ih.trans hlast.rests

theorem Turnover.rests {f : Match → Match} (h : Turnover f) (m : Match) : m.Rests (f m) := by
  cases h with
  | setEnergy c energy => exact .changeSeat c (·.setEnergy energy) (fun _ => ⟨rfl, rfl, rfl⟩) m
  | setAvailable c available =>
    exact .changeSeat c (·.setAvailable available) (fun _ => ⟨rfl, rfl, rfl⟩) m
  | checkVictory => exact .checkVictory m
  | chime c => exact .chime c m
  | _ => exact .of_seats rfl rfl rfl

theorem moves_place {card : Card} {hex : Hex} (owner : Color) (justPlayed : Bool)
    (htakes : s.Takes hex) : s.game.Moves [card] (s.place card hex owner justPlayed).game [] := by
  have henter : s.number.game.Moves [card.reset] (s.place card hex owner justPlayed).game [] :=
    Match.Moves.enter (p := s.newPiece card hex owner justPlayed) htakes.free htakes.unused
  exact (s.rests_number.moves [card]).trans ((Match.Moves.reset card _).trans henter)

/-- The errands that a card is moved by. -/
inductive Trade (s : Stage) : Stage → Prop where
  | play {player : Color} {id : CardId} {card : Card} {hex : Hex} :
    (s.game.seat player).cardInHand? id = some card → s.Takes hex →
    Trade s ((s.map (·.dropFromHand player id)).place card hex player true)
  | spend {player : Color} {id : CardId} {card : Card} :
    (s.game.seat player).cardInHand? id = some card →
    Trade s (s.map fun m => (m.dropFromHand player id).discard player card.reset)
  | deal (c : Color) (count : Nat) : Trade s (s.map (Play.deal c count))

/-- Every other errand leaves the cards where they are. -/
theorem Errand.rests (h : Errand s s') : s.game.Rests s'.game ∨ Trade s s' := by
  cases h with
  | inquiry h => exact .inl (Tending.inquiry h).rests
  | note | ending => exact .inl (.refl _)
  | turnover hf => exact .inl (hf.rests s.game)
  | mark id hf => exact .inl (.changePiece id (fun p => (hf.remains p).card) s.game)
  | takeControl owner id => exact .inl (.takeControl owner id s.game)
  | endTurnOf c => exact .inl (.mapPieces (Piece.remains_endTurnOf c) s.game)
  | beginTurnOf c => exact .inl (.mapPieces (Piece.remains_beginTurnOf c) s.game)
  | moveTo id hex => exact .inl (.moveTo id hex s.game)
  | @walk id made _ goal =>
    exact .inl (.changePiece id (f := (·.walk made goal)) (fun _ => rfl) s.game)
  | play hheld htakes => exact .inr (.play hheld htakes)
  | spend hheld => exact .inr (.spend hheld)
  | reprint c id cost stats =>
    exact .inl (.changeCard c id (f := Resolving.reprint cost stats) (fun _ => rfl) s.game)
  | deal c count => exact .inr (.deal c count)
  | leave c => exact .inl ((Match.Rests.setSelection c .none s.game).trans (.setStatus c "" _))
  | handOver c => exact .inl (.of_seats rfl rfl rfl)

/-- Whatever an errand takes it puts somewhere else. -/
theorem Errand.moves (h : Errand s s') : s.game.Moves [] s'.game [] := by
  obtain hrests | htrade := h.rests
  · exact hrests.moves []
  · cases htrade with
    | @play player id card _ hheld htakes =>
      have hdropped : (s.map (·.dropFromHand player id)).Takes _ :=
        ⟨htakes.onBoard, htakes.free, htakes.unused⟩
      exact (Match.Moves.dropFromHand hheld).trans (moves_place player true hdropped)
    | spend hheld =>
      exact (Match.Moves.dropFromHand hheld).trans ((Match.Moves.reset _ _).trans (.discard _ _ _))
    | deal c count => exact .deal c count s.game

/-! ### Acts -/

theorem Board.Sound.nodup {b : Board} (h : b.Sound) : b.ids.Nodup :=
  List.pairwise_map.2 (h.apart.imp fun hne => hne.1)

theorem TakenOff.moves {id : PieceId} {p : Piece} (h : TakenOff s id p s')
    (hs : s.game.board.Sound) : s.game.Moves [] s'.game.checkVictory [p.card.reset] := by
  have herased : s.game.Moves [] (s.game.changeBoard (·.erase id)) [p.card] :=
    .erase hs.nodup h.held
  have hrests : (s.game.changeBoard (·.erase id)).Rests s'.game.checkVictory :=
    (rests_of_tended h.removed.tended).trans (.checkVictory s'.game)
  exact herased.trans ((hrests.moves [p.card]).trans (.reset p.card _))

theorem Buried.moves {id : PieceId} (h : Buried id s s') (hs : s.game.board.Sound) :
    s.game.Moves [] s'.game [] := by
  cases h with
  | gone => exact (Match.Rests.refl _).moves []
  | discard h => exact (h.moves hs).trans (.discard _ _ _)

theorem Stage.Dooms.rests {id : PieceId} {start : Stage} (h : s.Dooms id start) (card : Card) :
    s.game.Rests (start.topple id card).game := by
  have hfall : start.game.Rests (start.topple id card).game :=
    (Match.Rests.changePiece id (f := (·.fall)) (fun _ => rfl) _).trans (.of_seats rfl rfl rfl)
  obtain rfl | rfl := h
  · exact hfall
  · exact (Match.Rests.changePiece id (f := (·.condemn)) (fun _ => rfl) s.game).trans hfall

/-- The cards that are added, which are made in between while no action clones a card. -/
def Gains (s s' : Stage) : Prop :=
  ∃ gained, s.game.Moves gained s'.game [] ∧
    (Minting s'.trace → Minted s.game.lastId s'.game.lastId gained)

theorem Gains.of_moves (h : s.game.Moves [] s'.game []) : Gains s s' :=
  ⟨[], h, fun _ => .nil _ _⟩

theorem Gains.trans {s'' : Stage} (h : Gains s s') (h' : Gains s' s'') (hdeeds : Deeds s s')
    (hdeeds' : Deeds s' s'') : Gains s s'' := by
  obtain ⟨gained, hmoves, hminted⟩ := h
  obtain ⟨gained', hmoves', hminted'⟩ := h'
  refine ⟨gained ++ gained', (hmoves.beside gained').trans hmoves', fun hminting => ?_⟩
  have hbefore := hminted (hminting.of_suffix hdeeds'.steps.trace_suffix)
  exact hbefore.append (hminted' hminting) hdeeds.steps.lastId_le hdeeds'.steps.lastId_le

theorem gains_spawn {target : Target} {ctx ctx' : Context} {cards : List Card} {card : Card}
    {hex : Hex} {found : Stage} (owner : Color)
    (hfab : Minting s.trace → target.fabricates = true)
    (hresolve : ((Resolving.resolve target).run ctx).run s = .ok ((.cards cards, ctx'), found))
    (hhead : cards.head? = some card) (hinquired : Relation.ReflTransGen Inquiry found s')
    (htakes : s'.Takes hex) : Gains s (s'.place card hex owner false) := by
  have hcourse := Resolving.inquired_of_resolve hresolve
  have hrests : s.game.Rests s'.game :=
    rests_of_tended (Relation.ReflTransGen.mono (fun _ _ => .inquiry) _ _ (hcourse.trans hinquired))
  refine ⟨[card], (hrests.moves [card]).trans (moves_place owner false htakes), fun hminting => ?_⟩
  have hlater : s.trace <:+ s'.trace :=
    (Act.inquired (hcourse.trans hinquired)).deeds.steps.trace_suffix
  have hfabricates := hfab (hminting.of_suffix (hlater.trans (List.suffix_cons _ _)))
  obtain ⟨n, hid, hlt, hle⟩ := Resolving.fresh_of_fabricates target hfabricates hresolve cards rfl
    card (List.mem_of_mem_head? hhead)
  have hfound := lastId_le_of_inquired hinquired
  refine ⟨[n], by rw [List.map_cons, List.map_cons, hid]; rfl, by simp, ?_⟩
  intro k hk
  obtain rfl := List.mem_singleton.1 hk
  exact ⟨hlt, Nat.le_trans hle (Nat.le_trans hfound (Nat.le_succ _))⟩

/-- The board stays sound throughout, so that no other object goes when one does. -/
theorem Act.gains (h : Act s s') (hs : s.game.board.Sound) : Gains s s' := by
  induction h with
  | refl s => exact .of_moves ((Match.Rests.refl s.game).moves [])
  | trans h h' ih ih' => exact (ih hs).trans (ih' (h.deeds.steps.sound hs)) h.deeds h'.deeds
  | errand h => exact .of_moves h.moves
  | reapply h => exact .of_moves ((rests_of_tended (Play.goes_reapply _ _ _ h)).moves [])
  | install id sentence duration h =>
    exact .of_moves ((rests_of_tended (Play.goes_grant _ _ _ _ _ _ _ h)).moves [])
  | tickDurations s =>
    exact .of_moves (((Match.Rests.mapPieces Piece.remains_countDown _).trans
      (.withdrawAll _ _)).moves [])
  | @condemn id s =>
    exact .of_moves ((Match.Rests.changePiece id (f := (·.condemn)) (fun _ => rfl) s.game).moves [])
  | @destroy id card s start fallen s' hdooms hact hburied ih =>
    have hbegun := hdooms.deeds card
    have hfallen : s.game.board.Sound → fallen.game.board.Sound :=
      (hbegun.trans hact.deeds).steps.sound
    have htoppled : Gains s (start.topple id card) := .of_moves ((hdooms.rests card).moves [])
    have hall := htoppled.trans (ih (hbegun.steps.sound hs)) hbegun hact.deeds
    exact hall.trans (.of_moves (hburied.moves (hfallen hs))) (hbegun.trans hact.deeds)
      hburied.deeds
  | giveBack h => exact .of_moves ((h.moves hs).trans (.giveBack _ _ _))
  | spawn hnoted hresolve hhead hinquired htakes =>
    exact gains_spawn _ (fun hminting => hminting _ hnoted) hresolve hhead hinquired htakes

end HexDuel
