import Doomtown.Proofs.Rollback

/-!
# Maneuvers that fail

A maneuver changes cards, players, zones or the shootout of a board. It looks up what it is about
before it changes anything, and so a maneuver that fails leaves the board as it was. One does not:
whoever is sent home is taken out of the shootout first, and only then looked up. A card that does
not exist is missing in the shootout after that, if it was in it (`Board.failed_restores_iff`).
-/

namespace Doomtown

open Play

/-! ## Outcomes of composed plays -/

namespace Play

variable {σ α β : Type} {p : Play σ α} {s s' : σ}

/-- A sequence whose first part fails has the outcome of its first part. -/
theorem bind_of_error {e : RulesError} {logged : List LogEntry} (h : p s = ⟨.error e, s', logged⟩)
    (q : α → Play σ β) : (p >>= q) s = ⟨.error e, s', logged⟩ := by
  show p.andThen q s = _
  simp only [andThen, h]

/-- A sequence whose first part answers and logs nothing has the outcome of its second part. -/
theorem bind_of_ok {a : α} (h : p s = ⟨.ok a, s', []⟩) (q : α → Play σ β) :
    (p >>= q) s = q a s' := by
  show p.andThen q s = _
  simp only [andThen, h, List.nil_append]

/-- A play that does nothing but fail. -/
def Refuses (p : Play σ α) (s : σ) : Prop := ∃ e, p s = ⟨.error e, s, []⟩

/-- What comes behind a refusal is not done. -/
theorem Refuses.bind (h : p.Refuses s) (q : α → Play σ β) : (p >>= q).Refuses s := by
  obtain ⟨e, h⟩ := h
  exact ⟨e, bind_of_error h q⟩

/-- A refusal behind a play that only looks. -/
theorem Refuses.after {a : α} {q : α → Play σ β} (h : p s = ⟨.ok a, s, []⟩)
    (hq : (q a).Refuses s) : (p >>= q).Refuses s := by
  obtain ⟨e, hq⟩ := hq
  exact ⟨e, (bind_of_ok h q).trans hq⟩

/-- Dropping the answer keeps a refusal. -/
theorem Refuses.discard (h : p.Refuses s) : (discard p).Refuses s := h.bind fun _ => answer ()

/-- A refusal leaves the state alone and logs nothing. -/
theorem Refuses.unchanged (h : p.Refuses s) : (p s).state = s ∧ (p s).entries = [] := by
  obtain ⟨e, h⟩ := h
  simp [h]

end Play

namespace Board

variable {b : Board} {c : CardId} {p : PlayerId}

/-! ## Maneuvers -/

/-- What can be done on a board by itself and can fail. -/
inductive Maneuver where
  | move (card : CardId) (destination : Location)
  | boot (card : CardId)
  | unboot (card : CardId)
  | sendHome (card : CardId)
  | spend (player : PlayerId) (amount : Nat)
  | gain (player : PlayerId) (amount : Nat)

/-- What a maneuver does. -/
def Maneuver.play : Maneuver → Play Board Unit
  | move c destination => discard (moveCard c destination)
  | boot c => Board.boot c
  | unboot c => Board.unboot c
  | sendHome c => Board.sendHome c
  | spend p amount => Board.spend p amount
  | gain p amount => Board.gain p amount

/-! ## What is not found is not changed -/

theorem getCard_refuses (h : b.card? c = none) : (getCard c).Refuses b := by
  unfold getCard
  refine .after (a := b) rfl ?_
  rw [h]
  exact ⟨_, rfl⟩

theorem getCard_found {card : Card} (h : b.card? c = some card) :
    getCard c b = ⟨.ok card, b, []⟩ := by
  unfold getCard
  refine (bind_of_ok (p := look) (a := b) rfl _).trans ?_
  rw [h]
  rfl

theorem getPlayer_refuses (h : b.player? p = none) : (getPlayer p).Refuses b := by
  unfold getPlayer
  refine .after (a := b) rfl ?_
  rw [h]
  exact ⟨_, rfl⟩

theorem getPlayer_found {player : Player} (h : b.player? p = some player) :
    getPlayer p b = ⟨.ok player, b, []⟩ := by
  unfold getPlayer
  refine (bind_of_ok (p := look) (a := b) rfl _).trans ?_
  rw [h]
  rfl

theorem modifyCard_refuses (h : b.card? c = none) (f : Card → Card) :
    (modifyCard c f).Refuses b :=
  (getCard_refuses h).discard.bind _

theorem modifyPlayer_refuses (h : b.player? p = none) (f : Player → Player) :
    (modifyPlayer p f).Refuses b :=
  (getPlayer_refuses h).discard.bind _

/-! ## When a maneuver fails -/

/-- A maneuver other than sending home that fails does nothing else. -/
theorem refuses_of_error {m : Maneuver} {err : RulesError} (hm : ∀ c, m ≠ .sendHome c)
    (h : (m.play b).result = .error err) : m.play.Refuses b := by
  cases m with
  | move c destination =>
    cases hcard : b.card? c with
    | none => exact ((getCard_refuses hcard).bind _).discard
    | some card =>
      cases hlists : b.lists c card with
      | false =>
        -- The card is looked up, its zone is asked for it, and that is all.
        refine Refuses.discard (.after (getCard_found hcard) (.after (a := false) ?_ ?_))
        · have hzone : (b.zone? card.owner card.location).any (·.contains c) = false := hlists
          simp [view, hzone]
        · exact Refuses.bind (p := fail (.refused (.notListed c card.location))) ⟨_, rfl⟩ _
      | true =>
        have hok : ((discard (moveCard c destination)).ends b).1 = .ok () := by
          rw [ends_discard, moveCard_ends hcard hlists]
          rfl
        exact absurd (hok.symm.trans h) nofun
  | boot c =>
    cases hcard : b.card? c with
    | none => exact modifyCard_refuses hcard _
    | some card => exact absurd ((congrArg Prod.fst (modifyCard_ends hcard _)).symm.trans h) nofun
  | unboot c =>
    cases hcard : b.card? c with
    | none => exact modifyCard_refuses hcard _
    | some card => exact absurd ((congrArg Prod.fst (modifyCard_ends hcard _)).symm.trans h) nofun
  | sendHome c => exact absurd rfl (hm c)
  | spend p amount =>
    cases hplayer : b.player? p with
    | none => exact (getPlayer_refuses hplayer).bind _
    | some player =>
      by_cases hs : player.canSpend amount
      · exact absurd ((congrArg Prod.fst (spend_ends hplayer hs)).symm.trans h) nofun
      · refine .after (getPlayer_found hplayer) ?_
        rw [if_neg hs]
        exact ⟨_, rfl⟩
  | gain p amount =>
    cases hplayer : b.player? p with
    | none => exact modifyPlayer_refuses hplayer _
    | some player =>
      exact absurd ((congrArg Prod.fst (modifyPlayer_ends hplayer _)).symm.trans h) nofun

/-- Sending home fails for a card that does not exist, which is out of the shootout then. -/
theorem sendHome_unknown {err : RulesError} (h : (sendHome c b).result = .error err) :
    sendHome c b = ⟨.error err, b.removeFromShootout c, []⟩ := by
  cases hcard : b.card? c with
  | none =>
    have hremoved : (b.removeFromShootout c).card? c = none := hcard
    obtain ⟨e, he⟩ := modifyCard_refuses hremoved ({ · with inTownSquare := false, booted := true })
    have hall : sendHome c b = ⟨.error e, b.removeFromShootout c, []⟩ :=
      (bind_of_ok (p := change fun b : Board => b.removeFromShootout c) (a := ()) rfl _).trans he
    rw [hall] at h ⊢
    rw [← h]
  | some card =>
    have hremoved : (b.removeFromShootout c).card? c = some card := hcard
    have hall := ends_bind_ok (ends_change (fun b : Board => b.removeFromShootout c) b)
      (fun _ => modifyCard c ({ · with inTownSquare := false, booted := true }))
    rw [modifyCard_ends hremoved] at hall
    exact absurd ((congrArg Prod.fst hall).symm.trans h) nofun

/-- Taking a card out of the shootout leaves the board alone exactly if it takes no part in it. -/
theorem removeFromShootout_eq_iff : b.removeFromShootout c = b ↔ b.isParticipating c = false := by
  rw [← b.map_remove_eq_iff c]
  exact ⟨congrArg Board.shootout, fun h => by rw [removeFromShootout, h]⟩

/-- A maneuver that fails logs nothing, and it leaves the board as it was, with cards, players, the
order of the zones, posses and attachments, unless it sends home a card that is in the shootout. -/
theorem failed_restores_iff (m : Maneuver) (b : Board) {err : RulesError}
    (h : (m.play b).result = .error err) :
    (m.play b).entries = [] ∧
      ((m.play b).state = b ↔ ∀ c, m = .sendHome c → b.isParticipating c = false) := by
  by_cases hm : ∃ c, m = .sendHome c
  · obtain ⟨c, rfl⟩ := hm
    have hplay : (Maneuver.sendHome c).play b = _ := sendHome_unknown h
    rw [hplay]
    refine ⟨rfl, removeFromShootout_eq_iff.trans ⟨fun hout c' hc' => ?_, fun hout => hout c rfl⟩⟩
    cases hc'
    exact hout
  · have hother : ∀ c, m ≠ .sendHome c := fun c hc => hm ⟨c, hc⟩
    obtain ⟨hstate, hentries⟩ := (refuses_of_error hother h).unchanged
    exact ⟨hentries, fun _ c hc => absurd hc (hother c), fun _ => hstate⟩

/-- A board without cards on which strangers fight. -/
def strangersFight : Board :=
  { twoPlayer "A" "B" 5 with shootout := some (.new ⟨3⟩ ⟨0⟩ ⟨4⟩ ⟨1⟩) }

/-- Who has no seat pays nothing, and the board stays; who leads the shootout but is no card cannot
be sent home, and is out of the shootout all the same. -/
theorem failed_restores_iff_strangersFight :
    ((Maneuver.spend ⟨2⟩ 1).play strangersFight).state = strangersFight ∧
      ((Maneuver.sendHome ⟨3⟩).play strangersFight).entries = [] ∧
      ((Maneuver.sendHome ⟨3⟩).play strangersFight).state ≠ strangersFight := by
  refine ⟨(failed_restores_iff (.spend ⟨2⟩ 1) strangersFight rfl).2.mpr nofun, ?_⟩
  obtain ⟨hentries, hiff⟩ := failed_restores_iff (.sendHome ⟨3⟩) strangersFight rfl
  exact ⟨hentries, fun h => absurd (hiff.mp h ⟨3⟩ rfl) (by decide)⟩

/-- It is not so that every maneuver that fails leaves the board as it was. -/
theorem failed_not_always_restores : ¬∀ (m : Maneuver) (b : Board) (err : RulesError),
    (m.play b).result = .error err → (m.play b).state = b := by
  intro h
  have hsame := h (.sendHome ⟨3⟩) strangersFight (.unknownId 3) rfl
  have hposse := congrArg (·.isParticipating ⟨3⟩) hsame
  exact absurd hposse (by decide)

end Board

end Doomtown
