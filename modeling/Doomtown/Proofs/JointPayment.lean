import Doomtown.Proofs.Stirs
import Mathlib.Data.List.Chain

/-!
# Costs that are paid together

Each cost of a list is tested by itself, and then all are paid one after the other, on a board that
changes on the way. What a list does to the board as a whole is `Board.charged`: the boots and the
ghost rock in any order, and one move to where the source ends up. So a cost can be paid behind
others exactly if it joins them (`Payment.Joins`), and a list of costs each of which can be paid by
itself is paid exactly if they go together (`Payment.GoTogether`, `Payment.payAll_ok_iff`).
-/

namespace Doomtown

open Play

/-! ## What costs ask for -/

namespace Cost

/-- The ghost rock that a cost takes. -/
def ghostRock : Cost → Nat
  | payGhostRock amount => amount
  | bootSelf | bootCard _ | discardSelf | aceSelf | playAction => 0

/-- The receipt for a cost that is paid while the source is at a location. -/
def receipt (x : Activation) (origin : Location) : Cost → CostReceipt
  | bootSelf => .booted x.source
  | bootCard c => .booted c
  | payGhostRock amount => .ghostRockSpent x.player amount
  | discardSelf => .moved x.source origin .discardPile
  | aceSelf => .moved x.source origin .deadPile
  | playAction => .moved x.source origin .beingPlayed

/-- Costs that move the source to the same place are the same. -/
theorem eq_of_destination {cost cost' : Cost} (h : cost.destination = cost'.destination)
    (hmoves : cost.destination.isSome) : cost = cost' := by
  cases cost <;> cases cost' <;> simp_all [destination]

/-- What boots a card moves nothing. -/
theorem destination_of_boots {x : Activation} {cost : Cost} {c : CardId}
    (h : cost.boots? x = some c) : cost.destination = none := by
  cases cost <;> simp [boots?] at h <;> rfl

/-- What boots a card takes no ghost rock. -/
theorem ghostRock_of_boots {x : Activation} {cost : Cost} {c : CardId}
    (h : cost.boots? x = some c) : cost.ghostRock = 0 := by
  cases cost <;> simp [boots?] at h <;> rfl

/-- What moves the source boots no card. -/
theorem boots?_of_destination {cost : Cost} {l : Location} (h : cost.destination = some l)
    (x : Activation) : cost.boots? x = none := by
  cases cost <;> simp [destination] at h <;> rfl

/-- What moves the source takes no ghost rock. -/
theorem ghostRock_of_destination {cost : Cost} {l : Location} (h : cost.destination = some l) :
    cost.ghostRock = 0 := by
  cases cost <;> simp [destination] at h <;> rfl

end Cost

namespace Payment

variable {x : Activation} {n : Nat} {front rest costs : List Cost} {cost : Cost}

/-- The ghost rock that costs take together. -/
def total : List Cost → Nat
  | [] => 0
  | cost :: rest => cost.ghostRock + total rest

/-- The cards that costs boot, each as often as a cost boots it. -/
def boots (x : Activation) (costs : List Cost) : List CardId := costs.filterMap (·.boots? x)

/-- The costs that move the source. -/
def moves (costs : List Cost) : List Cost := costs.filter (·.destination.isSome)

/-- Where the last of the costs that move the source moves it. -/
def lastStop? (costs : List Cost) : Option Location := (moves costs).getLast?.bind (·.destination)

/-- The receipts for costs that are paid one after the other while the source is at a location at
first. -/
def receiptsFrom (x : Activation) : Location → List Cost → List CostReceipt
  | _, [] => []
  | l, cost :: rest => cost.receipt x l :: receiptsFrom x (cost.destination.getD l) rest

/-- No cost takes from the board what another one of them needs. -/
structure GoTogether (x : Activation) (ghostRock : Nat) (costs : List Cost) : Prop where
  /-- There is enough ghost rock for all of them. -/
  rock : total costs ≤ ghostRock
  /-- No two of them boot the same card. -/
  boots : (boots x costs).Nodup
  /-- None of them boots the source behind one that moves it. -/
  stays : costs.Pairwise fun earlier later =>
    earlier.destination.isSome → later.boots? x ≠ some x.source
  /-- Playing an action comes before all other moves, and once. -/
  plays : .playAction ∉ (moves costs).tail
  /-- No move goes where the one before it went. -/
  moves : (moves costs).IsChain (· ≠ ·)

instance (x : Activation) (ghostRock : Nat) (costs : List Cost) :
    Decidable (GoTogether x ghostRock costs) :=
  decidable_of_iff (total costs ≤ ghostRock ∧ (boots x costs).Nodup ∧
      costs.Pairwise (fun earlier later =>
        earlier.destination.isSome → later.boots? x ≠ some x.source) ∧
      .playAction ∉ (moves costs).tail ∧ (moves costs).IsChain (· ≠ ·))
    ⟨fun ⟨hrock, hboots, hstays, hplays, hmoves⟩ => ⟨hrock, hboots, hstays, hplays, hmoves⟩,
      fun h => ⟨h.rock, h.boots, h.stays, h.plays, h.moves⟩⟩

/-- What a cost needs was not taken by those paid before it. -/
structure Joins (x : Activation) (ghostRock : Nat) (front : List Cost) (cost : Cost) : Prop where
  rock : total front + cost.ghostRock ≤ ghostRock
  boots : ∀ c, cost.boots? x = some c → c ∉ boots x front
  stays : cost.boots? x = some x.source → Payment.moves front = []
  plays : cost = .playAction → Payment.moves front = []
  moves : cost.destination.isSome → (Payment.moves front).getLast? ≠ some cost

theorem total_concat : total (front ++ [cost]) = total front + cost.ghostRock := by
  induction front with
  | nil => simp [total]
  | cons _ _ ih => rw [List.cons_append, total, ih, total, Nat.add_assoc]

theorem boots_concat : boots x (front ++ [cost]) = boots x front ++ (cost.boots? x).toList := by
  cases h : cost.boots? x <;> simp [boots, h]

theorem moves_concat_of_none (h : cost.destination = none) :
    moves (front ++ [cost]) = moves front := by
  simp [moves, h]

theorem moves_concat_of_some {l : Location} (h : cost.destination = some l) :
    moves (front ++ [cost]) = moves front ++ [cost] := by
  simp [moves, h]

/-- The source ends up where the last of the moves goes. -/
theorem lastStop?_eq_some_iff {l : Location} :
    lastStop? costs = some l ↔ ∃ c, (moves costs).getLast? = some c ∧ c.destination = some l :=
  Option.bind_eq_some_iff

theorem lastStop?_eq_none_iff : lastStop? costs = none ↔ moves costs = [] := by
  refine ⟨fun h => ?_, fun h => by simp [lastStop?, h]⟩
  by_contra hne
  have hmoves : ((moves costs).getLast hne).destination.isSome :=
    (List.mem_filter.mp (List.getLast_mem hne)).2
  rw [lastStop?, List.getLast?_eq_some_getLast hne, Option.bind_some] at h
  simp [h] at hmoves

theorem lastStop?_concat_of_none (h : cost.destination = none) :
    lastStop? (front ++ [cost]) = lastStop? front := by
  rw [lastStop?, moves_concat_of_none h, lastStop?]

theorem lastStop?_concat_of_some {l : Location} (h : cost.destination = some l) :
    lastStop? (front ++ [cost]) = some l := by
  simp [lastStop?, moves_concat_of_some h, h]

/-- No cost moves the source into the play area. -/
theorem lastStop?_ne_playArea {l : Location} (h : lastStop? costs = some l) : l ≠ .playArea := by
  obtain ⟨c, -, hc⟩ := lastStop?_eq_some_iff.mp h
  exact Cost.destination_ne_playArea hc

theorem goTogether_nil (x : Activation) (n : Nat) : GoTogether x n [] :=
  ⟨Nat.zero_le n, List.nodup_nil, List.Pairwise.nil, List.not_mem_nil, .nil⟩

theorem boots_nodup_concat : (boots x (front ++ [cost])).Nodup ↔
    (boots x front).Nodup ∧ ∀ c, cost.boots? x = some c → c ∉ boots x front := by
  rw [boots_concat, List.nodup_append]
  cases cost.boots? x with
  | none => simp
  | some c =>
    simp only [Option.toList_some, List.nodup_singleton, List.mem_singleton, forall_eq, true_and,
      Option.some.injEq, forall_eq']
    exact and_congr_right fun _ => ⟨fun h hmem => h c hmem rfl, fun h a ha heq => h (heq ▸ ha)⟩

/-- A boot of the source may be behind all costs but moves. -/
theorem stays_concat :
    ((front ++ [cost]).Pairwise fun earlier later =>
        earlier.destination.isSome → later.boots? x ≠ some x.source) ↔
      (front.Pairwise fun earlier later =>
          earlier.destination.isSome → later.boots? x ≠ some x.source) ∧
        (cost.boots? x = some x.source → moves front = []) := by
  have hmoves : moves front = [] ↔ ∀ c ∈ front, ¬c.destination.isSome := List.filter_eq_nil_iff
  rw [List.pairwise_append, hmoves]
  simp only [List.pairwise_singleton, List.mem_singleton, forall_eq, true_and]
  exact and_congr_right fun _ =>
    ⟨fun h hboots c hc hmoves => h c hc hmoves hboots,
      fun h c hc hmoves hboots => h hboots c hc hmoves⟩

/-- An action may be played behind all costs but moves. -/
theorem plays_concat : .playAction ∉ (moves (front ++ [cost])).tail ↔
    .playAction ∉ (moves front).tail ∧ (cost = .playAction → moves front = []) := by
  cases hd : cost.destination with
  | none =>
    have hne : cost ≠ .playAction := by
      rintro rfl
      simp [Cost.destination] at hd
    simp [moves_concat_of_none hd, hne]
  | some l =>
    rw [moves_concat_of_some hd]
    cases moves front with
    | nil => simp
    | cons first others => simp [eq_comm]

/-- A move may be behind any other one but itself. -/
theorem chain_concat : (moves (front ++ [cost])).IsChain (· ≠ ·) ↔
    (moves front).IsChain (· ≠ ·) ∧
      (cost.destination.isSome → (moves front).getLast? ≠ some cost) := by
  cases hd : cost.destination with
  | none => simp [moves_concat_of_none hd]
  | some l =>
    rw [moves_concat_of_some hd, List.isChain_append]
    simp only [List.isChain_singleton, List.head?_cons, true_and, Option.isSome_some, true_implies,
      Option.mem_def, Option.some.injEq]
    exact and_congr_right fun _ => ⟨fun h hlast => h cost hlast cost rfl rfl,
      fun h c hlast c' heq hsame => h (heq ▸ hsame ▸ hlast)⟩

/-- Costs go together exactly if those before the last do and the last one joins them. -/
theorem goTogether_concat :
    GoTogether x n (front ++ [cost]) ↔ GoTogether x n front ∧ Joins x n front cost := by
  constructor
  · intro h
    have hrock := h.rock
    obtain ⟨hboots, hnew⟩ := boots_nodup_concat.mp h.boots
    obtain ⟨hstays, hunmoved⟩ := stays_concat.mp h.stays
    obtain ⟨hplays, hfirst⟩ := plays_concat.mp h.plays
    obtain ⟨hmoves, hother⟩ := chain_concat.mp h.moves
    rw [total_concat] at hrock
    exact ⟨⟨by omega, hboots, hstays, hplays, hmoves⟩, ⟨hrock, hnew, hunmoved, hfirst, hother⟩⟩
  · rintro ⟨h, hjoins⟩
    have hrock := hjoins.rock
    rw [← total_concat] at hrock
    exact ⟨hrock, boots_nodup_concat.mpr ⟨h.boots, hjoins.boots⟩,
      stays_concat.mpr ⟨h.stays, hjoins.stays⟩, plays_concat.mpr ⟨h.plays, hjoins.plays⟩,
      chain_concat.mpr ⟨h.moves, hjoins.moves⟩⟩

/-- What goes together with more goes together by itself. -/
theorem GoTogether.of_append (h : GoTogether x n (front ++ rest)) : GoTogether x n front := by
  induction rest using List.reverseRecOn with
  | nil => rwa [List.append_nil] at h
  | append_singleton rest cost ih =>
    rw [← List.append_assoc] at h
    exact ih (goTogether_concat.mp h).1

end Payment

/-! ## What costs do to the board -/

/-- Changing the first item that passes a test does not change the first one that passes another,
if no item passes both. -/
theorem find?_modifyFirst_other {α : Type} {p q : α → Bool} {f : α → α} (l : List α)
    (hother : ∀ a, p a → ¬q a) (hf : ∀ a, p a → ¬q (f a)) :
    (modifyFirst p f l).find? q = l.find? q := by
  induction l with
  | nil => rfl
  | cons a rest ih =>
    by_cases ha : p a
    · simp [modifyFirst, ha, hother a ha, hf a ha]
    · by_cases hq : q a <;> simp [modifyFirst, ha, hq, ih]

namespace Board

variable {b : Board} {x : Activation} {c : CardId} {card : Card} {costs : List Cost}

/-- Boot cards of a store, one after the other. -/
def bootEach (cards : IdMap .card Card) (cs : List CardId) : IdMap .card Card :=
  cs.foldl (fun cards c => cards.modify c ({ · with booted := true })) cards

theorem get?_bootEach (cards : IdMap .card Card) (cs : List CardId) (c : CardId) :
    (bootEach cards cs).get? c =
      (cards.get? c).map fun card => { card with booted := card.booted || decide (c ∈ cs) } := by
  induction cs generalizing cards with
  | nil => simp [bootEach]
  | cons c' cs ih =>
    show (bootEach (cards.modify c' _) cs).get? c = _
    rw [ih, IdMap.get?_modify]
    by_cases hc : c' = c
    · subst hc
      simp [Option.map_map, Function.comp_def]
    · simp [hc, Ne.symm hc]

/-- The board once costs are paid, but for the moves: cards are booted, and the player has less
ghost rock. -/
def stripped (b : Board) (x : Activation) (costs : List Cost) : Board :=
  { b with
    cards := bootEach b.cards (Payment.boots x costs)
    players := modifyFirst (·.id = x.player) (·.spend (Payment.total costs)) b.players }

/-- The board once costs are paid whose source was a given card before. -/
def charged (b : Board) (x : Activation) (card : Card) (costs : List Cost) : Board :=
  match Payment.lastStop? costs with
  | none => b.stripped x costs
  | some l => (b.stripped x costs).moved x.source card l

/-- The source once costs are paid. -/
def chargedCard (x : Activation) (card : Card) (costs : List Cost) : Card :=
  { card with
    booted := card.booted || decide (x.source ∈ Payment.boots x costs)
    location := (Payment.lastStop? costs).getD card.location
    inTownSquare := card.inTownSquare &&
      !(decide (card.location = .playArea) && (Payment.lastStop? costs).isSome) }

/-! ### One cost more -/

theorem charged_nil (b : Board) (x : Activation) (card : Card) : b.charged x card [] = b := by
  have hplayers : modifyFirst (·.id = x.player) (·.spend 0) b.players = b.players :=
    modifyFirst_eq_self fun _ _ => rfl
  show { b with players := modifyFirst (·.id = x.player) (·.spend 0) b.players } = b
  rw [hplayers]

/-- A card moves apart from what happens to players. -/
theorem moved_withPlayers (b : Board) (players : List Player) (c : CardId) (card : Card)
    (l : Location) : { b with players := players }.moved c card l =
      { b.moved c card l with players := players } := by
  unfold moved
  cases card.location <;> cases l <;> rfl

/-- A card moves as the cards then are. -/
theorem moved_withCards (b : Board) (cards : IdMap .card Card) (c : CardId) (card : Card)
    (l : Location) : { b with cards := cards }.moved c card l =
      { b.moved c card l with cards := cards.modify c (arrived · card.location l) } := by
  unfold moved
  cases card.location <;> cases l <;> rfl

/-- To be moved on is to be moved there at once, but for the way through the play area. -/
theorem moved_moved (h : b.Seats c card) {l l' : Location} (hl : l ≠ card.location)
    (hp : l ≠ .playArea) (hp' : l' ≠ .playArea) :
    (b.moved c card l).moved c (arrived card card.location l) l' = b.moved c card l' := by
  have hon : ¬Leaves l l' := fun hleaves => hp hleaves.1
  have hleaves : Leaves card.location l ↔ Leaves card.location l' := by
    simp [Leaves, hp, hp']
  -- The stop on the way lists the card no more, and did not list it before.
  have hzones : ((b.modifyZone card.owner (·.remove c) card.location).modifyZone card.owner
      (·.add c) l).modifyZone card.owner (·.remove c) l =
        b.modifyZone card.owner (·.remove c) card.location := by
    rw [modifyZone_modifyZone, modifyZone_eq_self]
    intro z hz
    rw [zone?_modifyZone, if_neg hl.symm] at hz
    exact remove_add (h.unlisted l z hz hl)
  have hcards : (b.cards.modify c (arrived · card.location l)).modify c (arrived · l l') =
      b.cards.modify c (arrived · card.location l') := by
    rw [IdMap.modify_modify]
    refine IdMap.modify_congr fun a _ => ?_
    simp [arrived, hon, hleaves]
  have howner : (arrived card card.location l).owner = card.owner := rfl
  have hlocation : (arrived card card.location l).location = l := rfl
  unfold moved
  simp only [howner, hlocation, modifyZone_with, hcards, if_neg hon, hleaves, hzones]

/-- A card that is booted joins those that are. -/
theorem charged_boot {cost : Cost} (hc : cost.boots? x = some c) :
    b.charged x card (costs ++ [cost]) =
      { b.charged x card costs with
        cards := (b.charged x card costs).cards.modify c ({ · with booted := true }) } := by
  have hd := Cost.destination_of_boots hc
  have hboots : bootEach b.cards (Payment.boots x (costs ++ [cost])) =
      (bootEach b.cards (Payment.boots x costs)).modify c ({ · with booted := true }) := by
    rw [Payment.boots_concat, hc, bootEach, List.foldl_append]
    rfl
  have hstripped : b.stripped x (costs ++ [cost]) =
      { b.stripped x costs with
        cards := (b.stripped x costs).cards.modify c ({ · with booted := true }) } := by
    unfold stripped
    rw [hboots, Payment.total_concat, Cost.ghostRock_of_boots hc, Nat.add_zero]
  unfold charged
  rw [Payment.lastStop?_concat_of_none hd, hstripped]
  cases Payment.lastStop? costs with
  | none => rfl
  | some l =>
    -- Moving the source and booting a card are changes that commute.
    have hcomm := IdMap.modify_comm (b.stripped x costs).cards (i := c) (j := x.source)
      (f := ({ · with booted := true })) (g := (arrived · card.location l)) fun _ _ => rfl
    show Board.moved _ _ _ _ = _
    rw [moved_withCards, hcomm]
    rfl

/-- Ghost rock that is paid adds to what is paid. -/
theorem charged_rock (amount : Nat) :
    b.charged x card (costs ++ [.payGhostRock amount]) =
      { b.charged x card costs with
        players := modifyFirst (·.id = x.player) (·.spend amount)
          (b.charged x card costs).players } := by
  have htwice := modifyFirst_modifyFirst (p := fun p : Player => decide (p.id = x.player))
    (f := (·.spend (Payment.total costs))) (g := (·.spend amount)) (l := b.players) fun _ => rfl
  have hspend : ((·.spend amount) ∘ (·.spend (Payment.total costs)) : Player → Player) =
      (·.spend (Payment.total costs + amount)) := by
    funext p
    simp [Player.spend, Nat.sub_sub]
  have hstripped : b.stripped x (costs ++ [.payGhostRock amount]) =
      { b.stripped x costs with
        players := modifyFirst (·.id = x.player) (·.spend amount) (b.stripped x costs).players } := by
    unfold stripped
    rw [Payment.boots_concat, Payment.total_concat]
    simp only [Cost.boots?, Option.toList_none, List.append_nil, Cost.ghostRock, htwice, hspend]
  unfold charged
  rw [Payment.lastStop?_concat_of_none rfl, hstripped]
  cases Payment.lastStop? costs with
  | none => rfl
  | some l =>
    show Board.moved _ _ _ _ = _
    rw [moved_withPlayers, ← players_moved _ x.source card l]

/-- Until the source is moved, cards are as they were but for the boots. -/
theorem card?_stripped (b : Board) (x : Activation) (costs : List Cost) (c : CardId) :
    (b.stripped x costs).card? c = (b.card? c).map fun card =>
      { card with booted := card.booted || decide (c ∈ Payment.boots x costs) } :=
  get?_bootEach _ _ _

theorem Seats.stripped (h : b.Seats x.source card) (costs : List Cost) :
    (b.stripped x costs).Seats x.source
      { card with booted := card.booted || decide (x.source ∈ Payment.boots x costs) } := by
  have hzone : ∀ o l, (b.stripped x costs).zone? o l = b.zone? o l := by
    intro o l
    cases l <;> rfl
  refine ⟨?_, ?_, fun l z hz => ?_⟩
  · rw [card?_stripped, h.found]
    rfl
  · rw [hzone]
    exact h.listed
  · rw [hzone] at hz
    exact h.unlisted l z hz

/-- A move of the source goes to where it ends up. -/
theorem charged_move (h : b.Seats x.source card) {cost : Cost} {l : Location}
    (hd : cost.destination = some l)
    (hstop : ∀ l', Payment.lastStop? costs = some l' → l' ≠ card.location) :
    b.charged x card (costs ++ [cost]) =
      (b.charged x card costs).moved x.source (chargedCard x card costs) l := by
  have hstripped : b.stripped x (costs ++ [cost]) = b.stripped x costs := by
    unfold stripped
    rw [Payment.boots_concat, Payment.total_concat, Cost.boots?_of_destination hd,
      Cost.ghostRock_of_destination hd, Option.toList_none, List.append_nil, Nat.add_zero]
  unfold charged
  rw [Payment.lastStop?_concat_of_some hd, hstripped]
  cases hlast : Payment.lastStop? costs with
  | none =>
    unfold chargedCard
    rw [hlast]
    rfl
  | some l' =>
    have hmoved := moved_moved (h.stripped costs) (hstop l' hlast)
      (Payment.lastStop?_ne_playArea hlast) (Cost.destination_ne_playArea hd)
    unfold chargedCard
    rw [hlast]
    exact hmoved.symm

/-! ### What is on the board then -/

/-- A source that is moved arrives as it is once costs are paid. -/
theorem arrived_lastStop {l : Location} (hlast : Payment.lastStop? costs = some l) (x : Activation)
    (card : Card) :
    arrived { card with booted := card.booted || decide (x.source ∈ Payment.boots x costs) }
      card.location l = chargedCard x card costs := by
  have hleaves : Leaves card.location l ↔ card.location = .playArea :=
    ⟨And.left, fun h => ⟨h, Payment.lastStop?_ne_playArea hlast⟩⟩
  unfold chargedCard
  rw [hlast]
  simp [arrived, hleaves]

theorem card?_charged (h : b.card? x.source = some card) (costs : List Cost) :
    (b.charged x card costs).card? x.source = some (chargedCard x card costs) := by
  have hstripped := card?_stripped b x costs x.source
  rw [h] at hstripped
  unfold charged
  cases hlast : Payment.lastStop? costs with
  | none =>
    unfold chargedCard
    simpa [hlast] using hstripped
  | some l =>
    rw [← arrived_lastStop hlast]
    exact card?_moved hstripped

/-- Other cards are at most booted. -/
theorem card?_charged_other (hc : c ≠ x.source) :
    (b.charged x card costs).card? c = (b.card? c).map fun other =>
      { other with booted := other.booted || decide (c ∈ Payment.boots x costs) } := by
  unfold charged
  cases Payment.lastStop? costs with
  | none => exact card?_stripped b x costs c
  | some l => exact (card?_moved_other hc.symm _ _ _).trans (card?_stripped b x costs c)

theorem players_charged (b : Board) (x : Activation) (card : Card) (costs : List Cost) :
    (b.charged x card costs).players =
      modifyFirst (·.id = x.player) (·.spend (Payment.total costs)) b.players := by
  unfold charged
  cases Payment.lastStop? costs with
  | none => rfl
  | some l => exact players_moved _ _ _ _

theorem player?_charged (b : Board) (x : Activation) (card : Card) (costs : List Cost) :
    (b.charged x card costs).player? x.player =
      (b.player? x.player).map (·.spend (Payment.total costs)) := by
  unfold player?
  rw [players_charged]
  exact find?_modifyFirst fun _ => rfl

/-- The other players have what they had. -/
theorem player?_charged_other {p : PlayerId} (hp : p ≠ x.player) :
    (b.charged x card costs).player? p = b.player? p := by
  unfold player?
  rw [players_charged]
  refine find?_modifyFirst_other _ (fun a ha => ?_) fun a ha => ?_
  all_goals
    rw [decide_eq_true_eq] at ha ⊢
    exact fun heq => hp (heq.symm.trans ha)

/-- The source sits where it ends up, if its owner has zones. -/
theorem Seats.charged (h : b.Seats x.source card) (hz : (b.privateZones? card.owner).isSome)
    (hstop : ∀ l, Payment.lastStop? costs = some l → l ≠ card.location) :
    (b.charged x card costs).Seats x.source (chargedCard x card costs) := by
  have hstripped := h.stripped costs
  unfold Board.charged
  cases hlast : Payment.lastStop? costs with
  | none =>
    unfold chargedCard
    simpa [hlast] using hstripped
  | some l =>
    have hzone : ((b.stripped x costs).zone? card.owner l).isSome :=
      zone?_isSome (b := b.stripped x costs) hz (Payment.lastStop?_ne_playArea hlast)
    rw [← arrived_lastStop hlast]
    exact hstripped.moved (hstop l hlast) hzone

end Board

/-! ## One cost behind others -/

namespace Payment

variable {b b' : Board} {x : Activation} {card : Card} {player : Player} {n : Nat}
variable {front rest costs : List Cost} {cost : Cost}

/-- A boot joins costs that boot another card and, if it boots the source, leave that in place. -/
theorem joins_boot_iff {c : CardId} (hc : cost.boots? x = some c) (hrock : total front ≤ n) :
    Joins x n front cost ↔ c ∉ boots x front ∧ (c = x.source → moves front = []) := by
  have hd := Cost.destination_of_boots hc
  have hfree := Cost.ghostRock_of_boots hc
  have hplay : cost ≠ .playAction := by rintro rfl; simp [Cost.destination] at hd
  refine ⟨fun h => ⟨h.boots c hc, fun heq => h.stays (heq ▸ hc)⟩, ?_⟩
  rintro ⟨hnew, hunmoved⟩
  refine ⟨by omega, fun c' hc' => ?_, fun hself => ?_, fun heq => absurd heq hplay, ?_⟩
  · obtain rfl : c = c' := Option.some.inj (hc.symm.trans hc')
    exact hnew
  · exact hunmoved (Option.some.inj (hc.symm.trans hself))
  · simp [hd]

/-- A payment of ghost rock joins costs that leave enough of it. -/
theorem joins_payGhostRock_iff {amount : Nat} :
    Joins x n front (.payGhostRock amount) ↔ total front + amount ≤ n :=
  ⟨Joins.rock, fun h =>
    ⟨h, by simp [Cost.boots?], by simp [Cost.boots?], by simp, by simp [Cost.destination]⟩⟩

/-- A move joins costs that do not leave the source where it goes, and an action is played only if
it is not moved at all. -/
theorem joins_move_iff {l : Location} (hd : cost.destination = some l) (hrock : total front ≤ n) :
    Joins x n front cost ↔ (cost = .playAction → moves front = []) ∧ lastStop? front ≠ some l := by
  have hfree := Cost.ghostRock_of_destination hd
  have hboots := Cost.boots?_of_destination hd x
  have hlast : (moves front).getLast? ≠ some cost ↔ lastStop? front ≠ some l := by
    refine not_congr (lastStop?_eq_some_iff.trans ⟨?_, fun h => ⟨cost, h, hd⟩⟩).symm
    rintro ⟨c, hc, hcd⟩
    rwa [Cost.eq_of_destination (hcd.trans hd.symm) (by simp [hcd])] at hc
  refine ⟨fun h => ⟨h.plays, hlast.mp (h.moves (by simp [hd]))⟩, ?_⟩
  rintro ⟨hplays, hother⟩
  exact ⟨by omega, by simp [hboots], by simp [hboots], hplays, fun _ => hlast.mpr hother⟩

/-- A card can be booted behind costs exactly if they do not boot it and, if it is the source, do
not move it. -/
theorem canBoot_charged_iff {c : CardId} (hcard : b.card? x.source = some card)
    (hcan : Cost.canBoot b c) :
    Cost.canBoot (b.charged x card front) c ↔
      c ∉ boots x front ∧ (c = x.source → moves front = []) := by
  unfold Cost.canBoot Board.cardIs at hcan ⊢
  by_cases hc : c = x.source
  · subst hc
    rw [hcard] at hcan
    obtain ⟨hunbooted, hplay⟩ : card.booted = false ∧ card.location = .playArea := by
      simpa using hcan
    rw [Board.card?_charged hcard, ← lastStop?_eq_none_iff]
    -- A source that is moved is not in play any more.
    cases hlast : lastStop? front with
    | none => simp [Board.chargedCard, hlast, hunbooted, hplay]
    | some l => simp [Board.chargedCard, hlast, lastStop?_ne_playArea hlast]
  · obtain ⟨other, hother, hcan⟩ := (Option.any_eq_true _ _).mp hcan
    obtain ⟨hunbooted, hplay⟩ : other.booted = false ∧ other.location = .playArea := by
      simpa using hcan
    rw [Board.card?_charged_other hc, hother]
    simp [hunbooted, hplay, hc]

/-- What the player has behind costs is what they leave. -/
theorem canSpend_charged_iff {amount : Nat} (hplayer : b.player? x.player = some player)
    (hrock : total front ≤ player.ghostRock) :
    ((b.charged x card front).player? x.player).any (·.canSpend amount) ↔
      total front + amount ≤ player.ghostRock := by
  rw [Board.player?_charged, hplayer]
  simp only [Option.map_some, Option.any_some, Player.canSpend, Player.spend, decide_eq_true_eq]
  omega

/-- The source can be moved behind costs exactly if they do not leave it where it goes, and played
only if they do not move it. -/
theorem canMove_charged_iff {l : Location} (hcard : b.card? x.source = some card)
    (hd : cost.destination = some l) (hcan : cost.canPay b x) :
    cost.canPay (b.charged x card front) x ↔
      (cost = .playAction → moves front = []) ∧ lastStop? front ≠ some l := by
  have hsource := Board.card?_charged hcard front
  cases cost with
  | bootSelf => simp [Cost.destination] at hd
  | bootCard c => simp [Cost.destination] at hd
  | payGhostRock amount => simp [Cost.destination] at hd
  | discardSelf =>
    obtain rfl := Option.some.inj hd
    have hne : card.location ≠ .discardPile := by simpa [Cost.canPay, Board.cardIs, hcard] using hcan
    cases hlast : lastStop? front <;>
      simp [Cost.canPay, Board.cardIs, hsource, Board.chargedCard, hlast, hne]
  | aceSelf =>
    obtain rfl := Option.some.inj hd
    have hne : card.location ≠ .deadPile := by simpa [Cost.canPay, Board.cardIs, hcard] using hcan
    cases hlast : lastStop? front <;>
      simp [Cost.canPay, Board.cardIs, hsource, Board.chargedCard, hlast, hne]
  | playAction =>
    obtain rfl := Option.some.inj hd
    have hhand : card.location = .hand := by simpa [Cost.canPay, Board.cardIs, hcard] using hcan
    rw [← lastStop?_eq_none_iff]
    cases hlast : lastStop? front with
    | none => simp [Cost.canPay, Board.cardIs, hsource, Board.chargedCard, hlast, hhand]
    | some l =>
      -- No move goes to the hand.
      obtain ⟨c, -, hc⟩ := lastStop?_eq_some_iff.mp hlast
      have hne : l ≠ .hand := by
        rintro rfl
        cases c <;> simp [Cost.destination] at hc
      simp [Cost.canPay, Board.cardIs, hsource, Board.chargedCard, hlast, hne]

/-- A cost that can be paid by itself can be paid behind others exactly if it joins them. -/
theorem canPay_charged_iff (hcard : b.card? x.source = some card)
    (hplayer : b.player? x.player = some player) (hfront : GoTogether x player.ghostRock front)
    (hcan : cost.canPay b x) :
    cost.canPay (b.charged x card front) x ↔ Joins x player.ghostRock front cost := by
  cases hd : cost.destination with
  | some l => exact (canMove_charged_iff hcard hd hcan).trans (joins_move_iff hd hfront.rock).symm
  | none =>
    cases cost with
    | bootSelf => exact (canBoot_charged_iff hcard hcan).trans (joins_boot_iff rfl hfront.rock).symm
    | bootCard c => exact (canBoot_charged_iff hcard hcan).trans (joins_boot_iff rfl hfront.rock).symm
    | payGhostRock amount =>
      exact (canSpend_charged_iff hplayer hfront.rock).trans joins_payGhostRock_iff.symm
    | discardSelf => simp [Cost.destination] at hd
    | aceSelf => simp [Cost.destination] at hd
    | playAction => simp [Cost.destination] at hd

/-- A cost that can be paid moves the source away from where it is. -/
theorem destination_ne_location {l : Location} (hcard : b.card? x.source = some card)
    (hcan : cost.canPay b x) (hd : cost.destination = some l) : l ≠ card.location := by
  rintro rfl
  cases cost <;> simp [Cost.destination] at hd <;>
    simp [Cost.canPay, Board.cardIs, hcard, ← hd] at hcan

/-- So do costs each of which can be paid. -/
theorem lastStop?_ne_location {l : Location} (hcard : b.card? x.source = some card)
    (hcan : canPayAll b x costs) (hlast : lastStop? costs = some l) : l ≠ card.location := by
  obtain ⟨cost, hmem, hd⟩ := lastStop?_eq_some_iff.mp hlast
  have hcost : cost ∈ costs := (List.mem_filter.mp (List.mem_of_getLast? hmem)).1
  exact destination_ne_location hcard (List.all_eq_true.mp hcan cost hcost) hd

/-- A cost that can be paid is paid, if the source sits in its zone. -/
theorem pays_of_canPay (hs : b.Seats x.source card) (hcan : cost.canPay b x) :
    ∃ r b', (cost.pay x).ends b = (.ok r, b') ∧ cost.Pays b x r b' := by
  have hmove : ∀ l, cost.destination = some l →
      ∃ r b', (Cost.payMove x.source l).ends b = (.ok r, b') ∧ cost.Pays b x r b' := by
    intro l hd
    refine ⟨_, _, ?_, .move hd hs.found hs.lists (destination_ne_location hs.found hcan hd)⟩
    rw [Cost.payMove, ends_bind_ok (Board.moveCard_ends hs.found hs.lists)]
    rfl
  unfold Cost.pay
  rw [ends_bind_ok (ends_look b)]
  simp only [hcan, Bool.not_true, Bool.false_eq_true, if_false]
  cases cost with
  | bootSelf => exact ⟨_, Cost.payBoot_ends (x := x) .bootSelf rfl hcan⟩
  | bootCard c => exact ⟨_, Cost.payBoot_ends (x := x) (.bootCard c) rfl hcan⟩
  | payGhostRock amount =>
    obtain ⟨player, hplayer, hspend⟩ := (Option.any_eq_true _ _).mp hcan
    refine ⟨_, _, ?_, .spend hplayer hspend⟩
    rw [ends_bind_ok (Board.spend_ends hplayer hspend)]
    rfl
  | discardSelf => exact hmove _ rfl
  | aceSelf => exact hmove _ rfl
  | playAction => exact hmove _ rfl

/-- What a cost does behind others is what it does with them. -/
theorem charged_of_pays {r : CostReceipt} (hs : b.Seats x.source card)
    (hfront : canPayAll b x front) (h : cost.Pays (b.charged x card front) x r b') :
    r = cost.receipt x ((lastStop? front).getD card.location) ∧
      b' = b.charged x card (front ++ [cost]) := by
  cases h with
  | boot hc =>
    refine ⟨?_, (Board.charged_boot hc).symm⟩
    cases cost <;> simp [Cost.boots?] at hc <;> subst hc <;> rfl
  | @spend amount => exact ⟨rfl, (Board.charged_rock amount).symm⟩
  | move hd hcard =>
    rw [Board.card?_charged hs.found] at hcard
    obtain rfl := Option.some.inj hcard
    refine ⟨?_, (Board.charged_move hs hd fun l => lastStop?_ne_location hs.found hfront).symm⟩
    cases cost <;> simp [Cost.destination] at hd <;> subst hd <;> rfl

/-- A cost that joins others is paid behind them. -/
theorem pay_charged (hs : b.Seats x.source card) (hz : (b.privateZones? card.owner).isSome)
    (hplayer : b.player? x.player = some player) (hfront : canPayAll b x front)
    (htogether : GoTogether x player.ghostRock front) (hcan : cost.canPay b x)
    (hjoins : Joins x player.ghostRock front cost) :
    (cost.pay x).ends (b.charged x card front) =
      (.ok (cost.receipt x ((lastStop? front).getD card.location)),
        b.charged x card (front ++ [cost])) := by
  have hseats := hs.charged hz fun l => lastStop?_ne_location hs.found hfront
  have hcan' := (canPay_charged_iff hs.found hplayer htogether hcan).mpr hjoins
  -- What it does behind others is what is left to do with it in the list.
  obtain ⟨r, b', hpay, hpays⟩ := pays_of_canPay hseats hcan'
  obtain ⟨rfl, rfl⟩ := charged_of_pays hs hfront hpays
  exact hpay

/-- A cost that does not join others fails behind them. -/
theorem pay_charged_failed (hcard : b.card? x.source = some card)
    (hplayer : b.player? x.player = some player)
    (htogether : GoTogether x player.ghostRock front) (hcan : cost.canPay b x)
    (hjoins : ¬Joins x player.ghostRock front cost) :
    ∃ e, (cost.pay x).ends (b.charged x card front) = (.error e, b.charged x card front) := by
  have hcan' := mt (canPay_charged_iff hcard hplayer htogether hcan).mp hjoins
  unfold Cost.pay
  rw [ends_bind_ok (ends_look _)]
  simp only [hcan']
  exact ⟨_, rfl⟩

/-! ## All of them -/

/-- A list with one cost more leaves the source where that cost moves it, or where it was. -/
theorem lastStop?_concat_getD (l : Location) :
    (lastStop? (front ++ [cost])).getD l = cost.destination.getD ((lastStop? front).getD l) := by
  cases hd : cost.destination with
  | none => rw [lastStop?_concat_of_none hd, Option.getD_none]
  | some l' => rw [lastStop?_concat_of_some hd, Option.getD_some, Option.getD_some]

/-- Costs that go together with those paid before them are paid behind them. -/
theorem payFrom_charged (title : String) (hs : b.Seats x.source card)
    (hz : (b.privateZones? card.owner).isSome) (hplayer : b.player? x.player = some player) :
    ∀ (rest front : List Cost) (paid : List CostReceipt), canPayAll b x (front ++ rest) →
      GoTogether x player.ghostRock (front ++ rest) →
      (payFrom title x paid rest).ends (b.charged x card front) =
        (.ok (paid.reverse ++ receiptsFrom x ((lastStop? front).getD card.location) rest),
          b.charged x card (front ++ rest))
  | [], front, paid, _, _ => by
    rw [List.append_nil, receiptsFrom, List.append_nil]
    rfl
  | cost :: rest, front, paid, hcan, htogether => by
    rw [List.append_cons] at hcan htogether
    obtain ⟨hfront, hjoins⟩ := goTogether_concat.mp htogether.of_append
    have hcan' := hcan
    simp only [canPayAll, List.all_append, List.all_cons, List.all_nil, Bool.and_true,
      Bool.and_eq_true] at hcan'
    have hpay := pay_charged hs hz hplayer hcan'.1.1 hfront hcan'.1.2 hjoins
    rw [payFrom_cons_ok hpay, payFrom_charged title hs hz hplayer rest _ _ hcan htogether,
      List.append_cons front cost rest, lastStop?_concat_getD]
    simp [receiptsFrom]

/-- Costs that do not go together with those paid before them are not all paid behind them. -/
theorem payFrom_charged_failed (title : String) (hs : b.Seats x.source card)
    (hz : (b.privateZones? card.owner).isSome) (hplayer : b.player? x.player = some player) :
    ∀ (rest front : List Cost) (paid : List CostReceipt), canPayAll b x (front ++ rest) →
      GoTogether x player.ghostRock front → ¬GoTogether x player.ghostRock (front ++ rest) →
      ∃ e, ((payFrom title x paid rest).ends (b.charged x card front)).1 = .error e
  | [], front, paid, _, hfront, hnot => by
    rw [List.append_nil] at hnot
    exact absurd hfront hnot
  | cost :: rest, front, paid, hcan, hfront, hnot => by
    rw [List.append_cons] at hcan hnot
    have hcan' := hcan
    simp only [canPayAll, List.all_append, List.all_cons, List.all_nil, Bool.and_true,
      Bool.and_eq_true] at hcan'
    by_cases hjoins : Joins x player.ghostRock front cost
    · -- The first cost is paid, so a later one fails.
      have hpay := pay_charged hs hz hplayer hcan'.1.1 hfront hcan'.1.2 hjoins
      have hnext := goTogether_concat.mpr ⟨hfront, hjoins⟩
      rw [payFrom_cons_ok hpay]
      exact payFrom_charged_failed title hs hz hplayer rest _ _ hcan hnext hnot
    · -- The first cost fails. Whether what was paid can be taken back or not, an error is left.
      obtain ⟨e, hfails⟩ := pay_charged_failed hs.found hplayer hfront hcan'.1.2 hjoins
      rw [payFrom, ends_bind, ends_attempt, hfails]
      dsimp only
      rw [ends_bind]
      rcases (revertAll paid).ends (b.charged x card front) with ⟨e' | _, b'⟩
      · exact ⟨e', rfl⟩
      · exact ⟨_, rfl⟩

/-- What a payment of all costs does to the board. -/
structure Settles (x : Activation) (card : Card) (player : Player) (costs : List Cost)
    (receipts : List CostReceipt) (b b' : Board) : Prop where
  /-- There is one receipt for each cost, in order. -/
  receipts : receipts = receiptsFrom x card.location costs
  /-- The player has less ghost rock, by what the costs take together. -/
  rock : ∃ player', b'.player? x.player = some player' ∧
    player'.ghostRock + total costs = player.ghostRock ∧
      player' = { player with ghostRock := player'.ghostRock }
  players : ∀ p, p ≠ x.player → b'.player? p = b.player? p
  /-- The cards that costs boot are those that are booted now and were not. -/
  booted : ∀ c, b.cardIs c (!·.booted) ∧ b'.cardIs c (·.booted) ↔ c ∈ boots x costs
  /-- The source sits where the last move went, and where it was if nothing moved it. -/
  source : ∃ card', b'.Seats x.source card' ∧
    card'.location = (lastStop? costs).getD card.location
  /-- A card that is neither booted nor the source is as it was. -/
  others : ∀ c, c ≠ x.source → c ∉ boots x costs → b'.card? c = b.card? c
  /-- Nothing else has changed. -/
  board : b' = b.charged x card costs

/-- A cost that can be paid boots a card that is not booted. -/
theorem unbooted_of_canPayAll {c : CardId} (hcan : canPayAll b x costs) (hc : c ∈ boots x costs) :
    b.cardIs c (!·.booted) := by
  obtain ⟨cost, hcost, hboots⟩ := List.mem_filterMap.mp hc
  have hpay := List.all_eq_true.mp hcan cost hcost
  have hboot : Cost.canBoot b c := by
    cases cost <;> simp [Cost.boots?] at hboots <;> subst hboots <;> exact hpay
  obtain ⟨other, hother, hunbooted⟩ := (Option.any_eq_true _ _).mp hboot
  rw [Bool.and_eq_true] at hunbooted
  simp [Board.cardIs, hother, hunbooted.1]

/-- A card is booted once costs are paid if it was or they boot it. -/
theorem cardIs_booted_charged (hcard : b.card? x.source = some card) (c : CardId) :
    (b.charged x card costs).cardIs c (·.booted) =
      b.cardIs c fun other => other.booted || decide (c ∈ boots x costs) := by
  unfold Board.cardIs
  by_cases hc : c = x.source
  · subst hc
    rw [Board.card?_charged hcard, hcard]
    rfl
  · rw [Board.card?_charged_other hc]
    cases b.card? c <;> rfl

theorem settles_charged (hs : b.Seats x.source card) (hz : (b.privateZones? card.owner).isSome)
    (hplayer : b.player? x.player = some player) (hcan : canPayAll b x costs)
    (htogether : GoTogether x player.ghostRock costs) :
    Settles x card player costs (receiptsFrom x card.location costs) b (b.charged x card costs) where
  receipts := rfl
  rock := by
    rw [Board.player?_charged, hplayer]
    exact ⟨_, rfl, Nat.sub_add_cancel htogether.rock, rfl⟩
  players _ hp := Board.player?_charged_other hp
  booted c := by
    rw [cardIs_booted_charged hs.found]
    refine ⟨fun ⟨hbefore, hafter⟩ => ?_, fun hc => ?_⟩
    · unfold Board.cardIs at hbefore hafter
      cases hother : b.card? c <;> simp_all
    · have hbefore := unbooted_of_canPayAll hcan hc
      refine ⟨hbefore, ?_⟩
      unfold Board.cardIs at hbefore ⊢
      cases hother : b.card? c <;> simp_all
  source := ⟨_, hs.charged hz fun _ => lastStop?_ne_location hs.found hcan, rfl⟩
  others c hc hboots := by
    rw [Board.card?_charged_other hc]
    cases b.card? c <;> simp [hboots]
  board := rfl

/-- Costs each of which can be paid by itself are all paid exactly if they go together, and the
payment then does to the board what they ask for. -/
theorem payAll_ok_iff (title : String) (hb : b.Consistent)
    (hcard : b.card? x.source = some card) (howner : (b.privateZones? card.owner).isSome)
    (hplayer : b.player? x.player = some player) (hcan : canPayAll b x costs) :
    ((∃ receipts, (payAll title x costs b).result = .ok receipts) ↔
        GoTogether x player.ghostRock costs) ∧
      ∀ receipts, (payAll title x costs b).result = .ok receipts →
        Settles x card player costs receipts b (payAll title x costs b).state := by
  have hs := hb.seats hcard
  have hends : (payAll title x costs).ends b =
      (payFrom title x [] costs).ends (b.charged x card []) := by
    rw [payAll_ends, if_pos hcan, Board.charged_nil]
  change ((∃ receipts, ((payAll title x costs).ends b).1 = .ok receipts) ↔ _) ∧
    ∀ receipts, ((payAll title x costs).ends b).1 = .ok receipts →
      Settles x card player costs receipts b ((payAll title x costs).ends b).2
  rw [hends]
  by_cases htogether : GoTogether x player.ghostRock costs
  · have hpaid := payFrom_charged title hs howner hplayer costs [] [] hcan htogether
    rw [hpaid]
    refine ⟨iff_of_true ⟨_, rfl⟩ htogether, fun receipts hreceipts => ?_⟩
    obtain rfl := Except.ok.inj hreceipts
    exact settles_charged hs howner hplayer hcan htogether
  · obtain ⟨e, hfails⟩ := payFrom_charged_failed title hs howner hplayer costs [] [] hcan
      (goTogether_nil _ _) htogether
    rw [hfails]
    exact ⟨iff_of_false (by simp) htogether, by simp⟩

/-! ### Two deeds in play -/

/-- Two players with five ghost rock each, of whom the first has two deeds in play. -/
def twoInPlay : Board :=
  ((Board.twoPlayer "Ann" "Bob" 5).created ⟨0⟩ "A" .deed .playArea).created ⟨0⟩ "B" .deed .playArea

theorem twoInPlay_consistent : twoInPlay.Consistent :=
  (((Board.tidy_twoPlayer "Ann" "Bob" 5).created rfl "A" .deed .playArea).created rfl "B" .deed
    .playArea).consistent

/-- Both deeds are booted, the first one is discarded and then aced, and all ghost rock is paid. -/
def costsOfAll : List Cost :=
  [.bootSelf, .payGhostRock 2, .discardSelf, .bootCard ⟨4⟩, .aceSelf, .payGhostRock 3]

theorem payAll_ok_iff_twoInPlay :
    ∃ card player receipts, twoInPlay.Consistent ∧
      twoInPlay.card? useOfFirst.source = some card ∧
      (twoInPlay.privateZones? card.owner).isSome ∧
      twoInPlay.player? useOfFirst.player = some player ∧
      canPayAll twoInPlay useOfFirst costsOfAll ∧
      (payAll "A" useOfFirst costsOfAll twoInPlay).result = .ok receipts ∧
      GoTogether useOfFirst player.ghostRock costsOfAll ∧
      Settles useOfFirst card player costsOfAll receipts twoInPlay
        (payAll "A" useOfFirst costsOfAll twoInPlay).state := by
  have hcan : canPayAll twoInPlay useOfFirst costsOfAll = true := rfl
  have h := payAll_ok_iff "A" twoInPlay_consistent rfl rfl rfl hcan
  exact ⟨_, _, _, twoInPlay_consistent, rfl, rfl, rfl, hcan, rfl, h.1.mp ⟨_, rfl⟩, h.2 _ rfl⟩

/-- A deed that is discarded twice in a row is not there the second time; with a stop in between it
is. -/
example : ¬GoTogether useOfFirst 5 [.discardSelf, .bootCard ⟨4⟩, .discardSelf] ∧
    GoTogether useOfFirst 5 [.discardSelf, .aceSelf, .discardSelf] := by
  decide

end Payment

end Doomtown
