import Doomtown.Proofs.Ledger
import Doomtown.Proofs.MenuClicks

/-!
# Matches are answered prompt by prompt

A match runs the queue until it rests, and then has one prompt after the other answered by the
decision maker of its player. What it makes of the engine is what the answers make of it
(`Match.runWith_converses`).
-/

namespace Doomtown

open Play

variable {e e' : Engine} {p : Prompt} {n : Nat}

namespace Engine

/-! ## Where the queue stops -/

/-- The queue has stopped: no step runs, and to run it again would do nothing. -/
structure Stopped (e : Engine) (turns : Nat) : Prop where
  idle : e.queue.running = none
  rests : e.queue.Rests
  again : (settle turns).ends e = (.ok (some e.status), e)

/-- Where the running of the queue ends, the queue has stopped. -/
theorem settle_some {turns : Nat} {status : QueueStatus} (hidle : e.queue.running = none)
    (h : (settle turns).ends e = (.ok (some status), e')) :
    e'.Stopped turns ∧ status = e'.status := by
  induction turns generalizing e with
  | zero => simp [settle_zero] at h
  | succ turns ih =>
    by_cases hrests : e.queue.Rests
    · rw [settle_status hidle hrests] at h
      obtain ⟨hstatus, rfl⟩ := Prod.mk.inj h
      obtain rfl : e.status = status := by simpa using hstatus
      exact ⟨⟨hidle, hrests, settle_status hidle hrests turns⟩, rfl⟩
    · obtain ⟨s, rest, hfront, hkind⟩ := e.queue.front_of_not_rests hrests
      rw [settle_runs hidle hfront hkind] at h
      rcases hend : (runStep s).ends { e with queue := e.queue.started rest } with ⟨err | _, e₁⟩
      · simp [hend] at h
      · rw [hend] at h
        obtain ⟨hstopped, hstatus⟩ := ih (e := e₁.finished) rfl h
        exact ⟨⟨hstopped.idle, hstopped.rests,
          settle_status hstopped.idle hstopped.rests turns⟩, hstatus⟩

/-- A queue that has stopped and not at a prompt has nothing left. -/
theorem Stopped.frontPrompt?_eq_none_iff {turns : Nat} (h : e.Stopped turns) :
    e.queue.frontPrompt? = none ↔ e.queue.pending = [] := by
  obtain ⟨hidle, hrests, -⟩ := h
  have hpending : e.queue.pending = e.queue.steps := by
    simp [StepQueue.pending, StepQueue.children, hidle]
  rw [hpending]
  constructor
  · intro hnone
    exact hrests.resolve_right (by simp [hnone])
  · intro hnil
    simp [StepQueue.frontPrompt?, hnil]

/-! ## Answers -/

theorem front_of_frontPrompt? (h : e.queue.frontPrompt? = some p) :
    ∃ i rest, e.queue.steps = ⟨i, .prompt p⟩ :: rest := by
  unfold StepQueue.frontPrompt? at h
  split at h
  · rename_i i prompt rest hfront
    obtain rfl := Option.some.inj h
    exact ⟨i, rest, hfront⟩
  · simp at h

/-- An answer to the prompt at the front is done as a step if its player chooses one of its buttons,
and is refused without a trace otherwise. -/
theorem answerPrompt_front {i : StepId} {rest : List Step} (hidle : e.queue.running = none)
    (hfront : e.queue.steps = ⟨i, .prompt p⟩ :: rest) (player : PlayerId) (n : Nat) :
    (answerPrompt player n).ends e =
      if p.player = player ∧ n < p.buttons.length then
        (((answerWith n p.answer).ends { e with queue := e.queue.started rest }).1.map fun _ => true,
          ((answerWith n p.answer).ends { e with queue := e.queue.started rest }).2.finished)
      else (.ok false, e) := by
  have hbegin : e.queue.beginAnswer? = some (i, p, e.queue.started rest) := by
    unfold StepQueue.beginAnswer?
    rw [hidle, hfront]
    rfl
  unfold answerPrompt
  rw [ends_bind_ok (ends_look e), hbegin]
  dsimp only
  by_cases hn : n < p.buttons.length
  · rw [List.getElem?_eq_getElem hn]
    by_cases hplayer : p.player = player
    · simp only [hplayer, hn, if_true, and_self]
      rw [ends_bind_ok (ends_log _ _), ends_bind, asStep_ends]
      rcases (answerWith n p.answer).ends { e with queue := e.queue.started rest } with
        ⟨_ | _, _⟩ <;> rfl
    · simp only [hplayer, if_false, false_and]
      rfl
  · rw [List.getElem?_eq_none (Nat.le_of_not_lt hn), if_neg fun h => hn h.2]
    rfl

/-- An answer to the open prompt is refused, without a trace, if there is no such button. -/
theorem respond_refused (hidle : e.queue.running = none)
    (hopen : e.queue.frontPrompt? = some p) (hn : p.buttons.length ≤ n) (turns : Nat) :
    (respond turns p.player n).ends e = (.ok (some false), e) := by
  obtain ⟨i, rest, hfront⟩ := front_of_frontPrompt? hopen
  refine settleIf_refused ?_ turns
  rw [answerPrompt_front hidle hfront, if_neg fun h => absurd h.2 (Nat.not_lt.mpr hn)]

/-- An answer to the open prompt by its player, with one of its buttons, is not refused. If it is
taken, the queue is at rest again. -/
theorem respond_open {result : Except RulesError (Option Bool)} {turns : Nat}
    (hidle : e.queue.running = none) (hopen : e.queue.frontPrompt? = some p)
    (hn : n < p.buttons.length) (h : (respond turns p.player n).ends e = (result, e')) :
    result ≠ .ok (some false) ∧ (result = .ok (some true) → e'.Stopped turns) := by
  obtain ⟨i, rest, hfront⟩ := front_of_frontPrompt? hopen
  have hanswer := answerPrompt_front hidle hfront p.player n
  rw [if_pos ⟨rfl, hn⟩] at hanswer
  unfold respond settleIf at h
  rcases hend : (answerWith n p.answer).ends { e with queue := e.queue.started rest } with
    ⟨err | _, e₁⟩
  · rw [hend] at hanswer
    rw [ends_bind_error hanswer] at h
    obtain ⟨rfl, -⟩ := Prod.mk.inj h
    simp
  · rw [hend] at hanswer
    rw [ends_bind_ok hanswer, if_pos rfl, bind_pure_comp, ends_map] at h
    have hidle₁ : e₁.finished.queue.running = none := rfl
    rcases hsettle : (settle turns).ends e₁.finished with ⟨err | status?, e₂⟩
    · rw [hsettle] at h
      obtain ⟨rfl, rfl⟩ := Prod.mk.inj h
      simp [Except.map]
    · rw [hsettle] at h
      obtain ⟨rfl, rfl⟩ := Prod.mk.inj h
      cases status? with
      | none => simp [Except.map]
      | some status => exact ⟨by simp [Except.map], fun _ => (settle_some hidle₁ hsettle).1⟩

end Engine

namespace Match

variable {μ : Type} {choose : Chooser μ} {turns : Nat} {m m' : Match μ}

/-! ## Conversations -/

/-- The open prompt is put to the first decision maker of its player, who chooses a button. No other
is asked, and the engine is as before. -/
structure Asks (choose : Chooser μ) (m : Match μ) (p : Prompt) (n : Nat) (m' : Match μ) :
    Prop where
  opened : m.engine.queue.frontPrompt? = some p
  engine : m'.engine = m.engine
  seats : ∃ before mind mind' behind,
    m.seats = before ++ ⟨p.player, mind⟩ :: behind ∧ (∀ seat ∈ before, seat.player ≠ p.player) ∧
      choose ⟨m.engine.board, p.player⟩ p.toPromptView mind = (n, mind') ∧
      m'.seats = before ++ ⟨p.player, mind'⟩ :: behind

/-- One open prompt after the other is put to the decision maker of its player and answered with
the button chosen, whereupon the queue runs to the next prompt or to its end. -/
inductive Converses (choose : Chooser μ) (turns : Nat) :
    Match μ → List (Prompt × Nat) → Match μ → Prop where
  | nil (m : Match μ) : Converses choose turns m [] m
  | cons {m asked m' : Match μ} {p : Prompt} {n : Nat} {e : Engine} {rest : List (Prompt × Nat)}
      (asks : Asks choose m p n asked)
      (answered : (Engine.respond turns p.player n).ends m.engine = (.ok (some true), e))
      (goesOn : Converses choose turns { asked with engine := e } rest m') :
      Converses choose turns m ((p, n) :: rest) m'

/-- How a match breaks off at a prompt. -/
inductive Breaks (choose : Chooser μ) (turns : Nat) (m : Match μ) (p : Prompt) :
    RulesError → Match μ → Prop where
  /-- Nobody decides for its player. -/
  | unseated (opened : m.engine.queue.frontPrompt? = some p)
      (nobody : ∀ seat ∈ m.seats, seat.player ≠ p.player) :
      Breaks choose turns m p (.refused (.noDecisionMaker p.player)) m
  /-- The button chosen is none of the prompt's. -/
  | invalid {n : Nat} {asked : Match μ} (asks : Asks choose m p n asked)
      (range : p.buttons.length ≤ n) :
      Breaks choose turns m p (.refused (.invalidOption p.player n p.title)) asked
  /-- The engine fails over the answer or in what follows it. -/
  | failed {n : Nat} {asked : Match μ} {error : RulesError} {e : Engine}
      (asks : Asks choose m p n asked) (range : n < p.buttons.length)
      (fails : (Engine.respond turns p.player n).ends m.engine = (.error error, e)) :
      Breaks choose turns m p error { asked with engine := e }

/-! ## One exchange -/

theorem onEngine_ends {α : Type} (play : Play Engine α) (m : Match μ) :
    (onEngine play).ends m =
      ((play.ends m.engine).1, { m with engine := (play.ends m.engine).2 }) :=
  rfl

/-- Either nobody decides for the player of the open prompt, or the first who does can be asked. -/
theorem asks_of_seated (choose : Chooser μ) (hopen : m.engine.queue.frontPrompt? = some p)
    (hseated : ¬∀ seat ∈ m.seats, seat.player ≠ p.player) :
    ∃ n asked, Asks choose m p n asked := by
  obtain ⟨⟨player, mind⟩, hfind⟩ : ∃ seat, m.seats.find? (·.player = p.player) = some seat := by
    rw [← Option.isSome_iff_exists, List.find?_isSome]
    simpa using hseated
  obtain ⟨hplayer, before, behind, hseats, hbefore⟩ := List.find?_eq_some_iff_append.mp hfind
  obtain rfl : player = p.player := by simpa using hplayer
  exact ⟨(choose ⟨m.engine.board, p.player⟩ p.toPromptView mind).1,
    ⟨m.engine, before ++ ⟨p.player, (choose ⟨m.engine.board, p.player⟩ p.toPromptView mind).2⟩ ::
      behind⟩, hopen, rfl, before, mind, _, behind, hseats, by simpa using hbefore, rfl, rfl⟩

theorem decide_unseated (hnobody : ∀ seat ∈ m.seats, seat.player ≠ p.player) :
    (decide choose p).ends m = (.error (.refused (.noDecisionMaker p.player)), m) := by
  have hfind : m.seats.find? (·.player = p.player) = none :=
    List.find?_eq_none.mpr (by simpa using hnobody)
  unfold decide
  rw [ends_bind_ok (ends_look m), hfind]
  rfl

/-- To have the open prompt decided is to ask the decision maker of its player. -/
theorem decide_asks (h : Asks choose m p n m') : (decide choose p).ends m = (.ok n, m') := by
  obtain ⟨hopen, hengine, before, mind, mind', behind, hseats, hbefore, hchoice, hseats'⟩ := h
  have hfind : m.seats.find? (·.player = p.player) = some ⟨p.player, mind⟩ := by
    rw [hseats, List.find?_append, List.find?_eq_none.mpr (by simpa using hbefore)]
    simp
  have hmodify : modifyFirst (·.player = p.player) ({ · with mind := mind' }) m.seats =
      m'.seats := by
    rw [hseats, hseats', modifyFirst_append (by simpa using hbefore) (by simp)]
  unfold decide
  rw [ends_bind_ok (ends_look m), hfind]
  dsimp only
  rw [hchoice, ends_bind_ok (ends_change _ _), hmodify, ← hengine]
  rfl

/-- What a match makes of how the engine took an answer. -/
def verdict (p : Prompt) (n : Nat) : Option Bool → Play (Match μ) (Option (Option Unit))
  | none => answer (some none)
  | some false => fail (.refused (.invalidOption p.player n p.title))
  | some true => answer none

section

variable (hstopped : m.engine.Stopped turns)
include hstopped

/-- Where nothing waits, an exchange is the end of the match. -/
theorem exchange_idle (hnone : m.engine.queue.frontPrompt? = none) :
    (exchange choose turns).ends m = (.ok (some (some ())), m) := by
  have hstatus : m.engine.status = .idle := by
    unfold Engine.status
    rw [hnone]
  have hsettle : (onEngine (Engine.settle turns)).ends m = (.ok (some .idle), m) := by
    rw [onEngine_ends, hstopped.again, hstatus]
  unfold exchange
  rw [ends_bind_ok hsettle]
  rfl

/-- Where a prompt is open, an exchange is to have it decided and answered. -/
theorem exchange_open (hopen : m.engine.queue.frontPrompt? = some p) :
    (exchange choose turns).ends m = (do
      let n ← decide choose p
      let result ← onEngine (Engine.respond turns p.player n)
      verdict p n result).ends m := by
  have hstatus : m.engine.status = .awaiting p.player := by
    unfold Engine.status
    rw [hopen]
  have hsettle : (onEngine (Engine.settle turns)).ends m =
      (.ok (some (.awaiting p.player)), m) := by
    rw [onEngine_ends, hstopped.again, hstatus]
  unfold exchange
  rw [ends_bind_ok hsettle]
  dsimp only
  rw [ends_bind_ok (ends_look m), hopen]
  rfl

theorem exchange_unseated (hopen : m.engine.queue.frontPrompt? = some p)
    (hnobody : ∀ seat ∈ m.seats, seat.player ≠ p.player) :
    (exchange choose turns).ends m = (.error (.refused (.noDecisionMaker p.player)), m) := by
  rw [exchange_open hstopped hopen, ends_bind_error (decide_unseated hnobody)]

theorem exchange_asks (h : Asks choose m p n m') :
    (exchange choose turns).ends m =
      (onEngine (Engine.respond turns p.player n) >>= verdict p n).ends m' := by
  rw [exchange_open hstopped h.opened, ends_bind_ok (decide_asks h)]

end

/-! ## Whole matches -/

/-- How a match goes on from a state of which it is known that no more prompt is answered. -/
inductive Concludes (choose : Chooser μ) (turns : Nat) (m : Match μ) :
    Except RulesError (Option Unit) → Match μ → Prop where
  | done (nothing : m.engine.queue.pending = []) : Concludes choose turns m (.ok (some ())) m
  | broken {p : Prompt} {error : RulesError} {m' : Match μ}
      (breaks : Breaks choose turns m p error m') : Concludes choose turns m (.error error) m'

/-- An answer that was taken was one of the prompt's, and the queue has stopped again. -/
theorem Asks.stopped (h : Asks choose m p n m') (hstopped : m.engine.Stopped turns)
    (hanswered : (Engine.respond turns p.player n).ends m.engine = (.ok (some true), e)) :
    e.Stopped turns := by
  by_cases hn : n < p.buttons.length
  · exact (Engine.respond_open hstopped.idle h.opened hn hanswered).2 rfl
  · rw [Engine.respond_refused hstopped.idle h.opened (Nat.le_of_not_lt hn)] at hanswered
    simp at hanswered

section

variable {fuel : Nat} (hstopped : m.engine.Stopped turns)
include hstopped

theorem exchange_answered {asked : Match μ} (h : Asks choose m p n asked)
    (hanswered : (Engine.respond turns p.player n).ends m.engine = (.ok (some true), e)) :
    (exchange choose turns).ends m = (.ok none, { asked with engine := e }) := by
  rw [exchange_asks hstopped h, ends_bind, onEngine_ends, h.engine, hanswered]
  rfl

/-- A match breaks off in the exchange that comes to where it does. -/
theorem exchange_breaks {error : RulesError} (h : Breaks choose turns m p error m') :
    (exchange choose turns).ends m = (.error error, m') := by
  cases h with
  | unseated hopen hnobody => exact exchange_unseated hstopped hopen hnobody
  | invalid hasks hrange =>
    rw [exchange_asks hstopped hasks, ends_bind, onEngine_ends, hasks.engine,
      Engine.respond_refused hstopped.idle hasks.opened hrange, ← hasks.engine]
    rfl
  | failed hasks hrange hfails =>
    rw [exchange_asks hstopped hasks, ends_bind, onEngine_ends, hasks.engine, hfails]

/-- A conversation that concludes is what a match makes of the engine. -/
theorem runWith_of_concludes {m₁ : Match μ} {asked : List (Prompt × Nat)}
    {result : Except RulesError (Option Unit)} (hconverses : Converses choose turns m asked m₁)
    (hfuel : asked.length < fuel) (hend : Concludes choose turns m₁ result m') :
    (runWith choose turns fuel).ends m = (result, m') := by
  -- Each prompt that is answered takes up one exchange of the match.
  induction hconverses generalizing fuel with
  | nil m =>
    obtain ⟨fuel, rfl⟩ := Nat.exists_eq_add_one_of_ne_zero (Nat.ne_zero_of_lt hfuel)
    rw [runWith_succ]
    cases hend with
    | done hnothing =>
      have hnone := hstopped.frontPrompt?_eq_none_iff.mpr hnothing
      rw [ends_bind_ok (exchange_idle hstopped hnone)]
      rfl
    | broken hbreaks => rw [ends_bind_error (exchange_breaks hstopped hbreaks)]
  | cons hasks hanswered _ ih =>
    obtain ⟨fuel, rfl⟩ := Nat.exists_eq_add_one_of_ne_zero (Nat.ne_zero_of_lt hfuel)
    rw [runWith_succ, ends_bind_ok (exchange_answered hstopped hasks hanswered)]
    exact ih (hasks.stopped hstopped hanswered) (Nat.lt_of_succ_lt_succ hfuel) hend

/-- A match that ends is a conversation that concludes. -/
theorem concludes_of_runWith {result : Except RulesError (Option Unit)}
    (h : (runWith choose turns fuel).ends m = (result, m')) (hended : result ≠ .ok none) :
    ∃ asked m₁, Converses choose turns m asked m₁ ∧ asked.length < fuel ∧
      Concludes choose turns m₁ result m' := by
  induction fuel generalizing m with
  | zero =>
    rw [runWith_zero] at h
    exact absurd (congrArg Prod.fst h).symm hended
  | succ fuel ih =>
    rw [runWith_succ] at h
    -- The match ends here, unless a prompt is answered.
    have hhere : Concludes choose turns m result m' →
        ∃ asked m₁, Converses choose turns m asked m₁ ∧ asked.length < fuel + 1 ∧
          Concludes choose turns m₁ result m' := fun hend =>
      ⟨[], m, .nil m, Nat.succ_pos fuel, hend⟩
    have hbreaks : ∀ {p error m₁}, Breaks choose turns m p error m₁ →
        Concludes choose turns m result m' := fun hb => by
      rw [ends_bind_error (exchange_breaks hstopped hb)] at h
      obtain ⟨rfl, rfl⟩ := Prod.mk.inj h
      exact .broken hb
    cases hopen : m.engine.queue.frontPrompt? with
    | none =>
      rw [ends_bind_ok (exchange_idle hstopped hopen)] at h
      obtain ⟨rfl, rfl⟩ := Prod.mk.inj h
      exact hhere (.done (hstopped.frontPrompt?_eq_none_iff.mp hopen))
    | some p =>
      by_cases hnobody : ∀ seat ∈ m.seats, seat.player ≠ p.player
      · exact hhere (hbreaks (.unseated hopen hnobody))
      obtain ⟨n, asked, hasks⟩ := asks_of_seated choose hopen hnobody
      by_cases hn : n < p.buttons.length
      · rcases hanswer : (Engine.respond turns p.player n).ends m.engine with
          ⟨err | taken, e⟩
        · exact hhere (hbreaks (.failed hasks hn hanswer))
        · rcases taken with _ | _ | _
          · rw [ends_bind, exchange_asks hstopped hasks, ends_bind, onEngine_ends, hasks.engine,
              hanswer] at h
            exact absurd (congrArg Prod.fst h).symm hended
          · exact absurd rfl (Engine.respond_open hstopped.idle hopen hn hanswer).1
          · rw [ends_bind_ok (exchange_answered hstopped hasks hanswer)] at h
            obtain ⟨rest, m₁, hrest, hlength, hend⟩ :=
              ih (hasks.stopped hstopped hanswer) h
            exact ⟨_, m₁, .cons hasks hanswer hrest, Nat.succ_lt_succ hlength, hend⟩
      · exact hhere (hbreaks (.invalid hasks (Nat.le_of_not_lt hn)))

end

section

variable {fuel : Nat} (hidle : m.engine.queue.running = none)
include hidle

/-- A match begins with the running of the queue. -/
theorem exchange_settled (choose : Chooser μ) {status : QueueStatus}
    (h : (Engine.settle turns).ends m.engine = (.ok (some status), e)) :
    e.Stopped turns ∧
      (exchange choose turns).ends m = (exchange choose turns).ends { m with engine := e } := by
  obtain ⟨hstopped, rfl⟩ := Engine.settle_some hidle h
  have hfirst : (onEngine (Engine.settle turns)).ends m =
      (.ok (some e.status), { m with engine := e }) := by
    rw [onEngine_ends, h]
  have hagain : (onEngine (Engine.settle turns)).ends { m with engine := e } =
      (.ok (some e.status), { m with engine := e }) := by
    rw [onEngine_ends, hstopped.again]
  refine ⟨hstopped, ?_⟩
  unfold exchange
  rw [ends_bind_ok hfirst, ends_bind_ok hagain]

/-- The ways in which a match ends. -/
theorem runWith_ends_iff {result : Except RulesError (Option Unit)} (hended : result ≠ .ok none) :
    (runWith choose turns fuel).ends m = (result, m') ↔
      (0 < fuel ∧ ∃ error e, (Engine.settle turns).ends m.engine = (.error error, e) ∧
        result = .error error ∧ m' = { m with engine := e }) ∨
      ∃ status e asked m₁, (Engine.settle turns).ends m.engine = (.ok (some status), e) ∧
        Converses choose turns { m with engine := e } asked m₁ ∧ asked.length < fuel ∧
        Concludes choose turns m₁ result m' := by
  cases fuel with
  | zero =>
    rw [runWith_zero]
    refine iff_of_false (fun h => hended (congrArg Prod.fst h).symm) ?_
    rintro (⟨hfuel, -⟩ | ⟨_, _, _, _, -, -, hfuel, -⟩)
    · exact Nat.lt_irrefl 0 hfuel
    · exact Nat.not_lt_zero _ hfuel
  | succ fuel =>
    -- The first run of the queue fails, needs more turns than it is given, or stops.
    rcases hsettle : (Engine.settle turns).ends m.engine with ⟨error | _ | status, e⟩
    · have hfails : (runWith choose turns (fuel + 1)).ends m =
          (.error error, { m with engine := e }) := by
        rw [runWith_succ, exchange, ends_bind, ends_bind, onEngine_ends, hsettle]
      rw [hfails]
      constructor
      · intro h
        obtain ⟨rfl, rfl⟩ := Prod.mk.inj h
        exact .inl ⟨Nat.succ_pos fuel, error, e, rfl, rfl, rfl⟩
      · rintro (⟨-, _, _, h, rfl, rfl⟩ | ⟨_, _, _, _, h, -⟩)
        · obtain ⟨herror, rfl⟩ := Prod.mk.inj h
          obtain rfl := Except.error.inj herror
          rfl
        · simp at h
    · have hgoesOn : (runWith choose turns (fuel + 1)).ends m =
          (.ok none, { m with engine := e }) := by
        rw [runWith_succ, exchange, ends_bind, ends_bind, onEngine_ends, hsettle]
        rfl
      rw [hgoesOn]
      refine iff_of_false (fun h => hended (congrArg Prod.fst h).symm) ?_
      rintro (⟨-, _, _, h, -⟩ | ⟨_, _, _, _, h, -⟩) <;> simp at h
    · obtain ⟨hstopped, hexchange⟩ := exchange_settled hidle choose hsettle
      have hsame : (runWith choose turns (fuel + 1)).ends m =
          (runWith choose turns (fuel + 1)).ends { m with engine := e } := by
        rw [runWith_succ, ends_bind, ends_bind, hexchange]
      rw [hsame]
      constructor
      · intro h
        obtain ⟨asked, m₁, hconverses, hlength, hend⟩ :=
          concludes_of_runWith (m := { m with engine := e }) hstopped h hended
        exact .inr ⟨status, e, asked, m₁, rfl, hconverses, hlength, hend⟩
      · rintro (⟨-, _, _, h, -⟩ | ⟨_, _, asked, m₁, h, hconverses, hlength, hend⟩)
        · simp at h
        · obtain ⟨-, rfl⟩ := Prod.mk.inj h
          exact runWith_of_concludes (m := { m with engine := e }) hstopped hconverses hlength hend

end

/-- A match is a conversation: the queue is run, and then each open prompt is put to the first
decision maker of its player, and to no other, and the choice is answered.

It ends well where nothing waits any more, and the engine is then as the answers have left it. It
fails where the engine does, in the first run or over an answer, or where it breaks off: at a prompt
for whose player nobody decides, or for which a button was chosen that it does not have. The engine
is then as it was when the prompt opened, and the prompt is open. These are all the ways in which a
match ends, if it is given as many turns and prompts as it takes. -/
theorem runWith_converses (choose : Chooser μ) (turns fuel : Nat) (m : Match μ)
    (hidle : m.engine.queue.running = none) :
    (∀ m', (runWith choose turns fuel).ends m = (.ok (some ()), m') ↔
      ∃ status e asked, (Engine.settle turns).ends m.engine = (.ok (some status), e) ∧
        Converses choose turns { m with engine := e } asked m' ∧ asked.length < fuel ∧
        m'.engine.queue.pending = []) ∧
    ∀ error m', (runWith choose turns fuel).ends m = (.error error, m') ↔
      (0 < fuel ∧ ∃ e, (Engine.settle turns).ends m.engine = (.error error, e) ∧
        m' = { m with engine := e }) ∨
      ∃ status e asked m₁ p, (Engine.settle turns).ends m.engine = (.ok (some status), e) ∧
        Converses choose turns { m with engine := e } asked m₁ ∧ asked.length < fuel ∧
        Breaks choose turns m₁ p error m' := by
  refine ⟨fun m' => ?_, fun error m' => ?_⟩
  · rw [runWith_ends_iff hidle (by simp)]
    constructor
    · rintro (⟨-, _, _, -, h, -⟩ | ⟨status, e, asked, m₁, hsettle, hconverses, hlength, hend⟩)
      · simp at h
      · cases hend with
        | done hnothing => exact ⟨status, e, asked, hsettle, hconverses, hlength, hnothing⟩
    · rintro ⟨status, e, asked, hsettle, hconverses, hlength, hnothing⟩
      exact .inr ⟨status, e, asked, m', hsettle, hconverses, hlength, .done hnothing⟩
  · rw [runWith_ends_iff hidle (by simp)]
    constructor
    · rintro (⟨hfuel, _, e, hsettle, herror, hm⟩ |
        ⟨status, e, asked, m₁, hsettle, hconverses, hlength, hend⟩)
      · obtain rfl := Except.error.inj herror
        exact .inl ⟨hfuel, e, hsettle, hm⟩
      · cases hend with
        | broken hbreaks =>
          exact .inr ⟨status, e, asked, m₁, _, hsettle, hconverses, hlength, hbreaks⟩
    · rintro (⟨hfuel, e, hsettle, hm⟩ |
        ⟨status, e, asked, m₁, p, hsettle, hconverses, hlength, hbreaks⟩)
      · exact .inl ⟨hfuel, error, e, hsettle, rfl, hm⟩
      · exact .inr ⟨status, e, asked, m₁, hsettle, hconverses, hlength, .broken hbreaks⟩

/-- The first player may gain ghost rock, and then the second may. -/
def twoQuestions : Engine :=
  ((Moment.start Moment.deedInPlay).run [
    .call (.ask ⟨0⟩ "Gain one?" ["No", "Yes"] none fun n => .order (.gain ⟨0⟩ n) fun _ => .done),
    .call (.ask ⟨1⟩ "Gain one?" ["No", "Yes"] none fun n => .order (.gain ⟨1⟩ n) fun _ => .done)]).engine

/-- With a decision maker for each player the match ends well; the second one for the first player
is never asked. If only the first player has one, the match breaks off at the second question, and
if that one chooses a third button, at the first. -/
theorem runWith_converses_twoQuestions :
    (∃ status e asked m', (Engine.settle 5).ends twoQuestions = (.ok (some status), e) ∧
      Converses Controller.choose 5
        ⟨e, [⟨⟨1⟩, .first⟩, ⟨⟨0⟩, .scripted [1] []⟩, ⟨⟨0⟩, .scripted [0] []⟩]⟩ asked m' ∧
      asked.length < 3 ∧ m'.engine.queue.pending = []) ∧
    (∃ m₁ p m', Breaks Controller.choose 5 m₁ p (.refused (.noDecisionMaker ⟨1⟩)) m') ∧
    ∃ m₁ p m', Breaks Controller.choose 5 m₁ p (.refused (.invalidOption ⟨0⟩ 2 "Gain one?")) m' := by
  have hidle : twoQuestions.queue.running = none := rfl
  have hsettle : ((Engine.settle 5).ends twoQuestions).1 = .ok (some (.awaiting ⟨0⟩)) := rfl
  have hbreaks : ∀ (seats : List (Seat Controller)) {error : RulesError},
      ((runWith Controller.choose 5 3).ends ⟨twoQuestions, seats⟩).1 = .error error →
      ∃ m₁ p m', Breaks Controller.choose 5 m₁ p error m' := by
    intro seats error h
    obtain ⟨-, hfails⟩ := runWith_converses Controller.choose 5 3 ⟨twoQuestions, seats⟩ hidle
    rcases (hfails error _).mp (Prod.ext h rfl) with ⟨-, e, he, -⟩ | ⟨_, _, _, m₁, p, -, -, -, hb⟩
    · rw [he] at hsettle
      simp at hsettle
    · exact ⟨m₁, p, _, hb⟩
  refine ⟨?_, hbreaks [⟨⟨0⟩, .scripted [1] []⟩] (by decide +kernel),
    hbreaks [⟨⟨0⟩, .scripted [2] []⟩] (by decide +kernel)⟩
  obtain ⟨hends, -⟩ := runWith_converses Controller.choose 5 3
    ⟨twoQuestions, [⟨⟨1⟩, .first⟩, ⟨⟨0⟩, .scripted [1] []⟩, ⟨⟨0⟩, .scripted [0] []⟩]⟩ hidle
  obtain ⟨status, e, asked, h⟩ := (hends _).mp (Prod.ext (by decide +kernel) rfl)
  exact ⟨status, e, asked, _, h⟩

end Match

end Doomtown
