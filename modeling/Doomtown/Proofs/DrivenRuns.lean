import Doomtown.Proofs.Requests

/-!
# Runs in which the queue is driven

Once a step has ended the queue goes on by itself. If a step is at the front that can start, it
starts before anything else is asked of the engine (`Moment.Driven`). So it is with whatever the
queue does unasked (`Moment.exists_drivenFrom`), and with requests that come one after the other, if
each that runs the queue runs it until it rests (`Request.exists_driven`).
-/

namespace Doomtown

open Play

/-- Where the queue rests, no step can start. -/
theorem StepQueue.begin?_of_rests {q : StepQueue} (h : q.Rests) : q.begin? = none := by
  obtain ⟨steps, running, nextId⟩ := q
  rcases h with hnil | hprompt
  · obtain rfl : steps = [] := hnil
    simp [begin?]
  · obtain ⟨p, hp⟩ := Option.isSome_iff_exists.mp hprompt
    unfold frontPrompt? at hp
    split at hp
    · rename_i i _ rest hsteps
      obtain rfl : steps = ⟨i, .prompt _⟩ :: rest := hsteps
      cases running <;> rfl
    · simp at hp

/-- Whether a deed is a turn of the queue. -/
def Deed.isTurn : Deed → Bool
  | turn => true
  | call _ | answer .. | go => false

theorem Deed.eq_turn {d : Deed} (h : d.isTurn) : d = .turn := by
  cases d with
  | turn => rfl
  | _ => simp [isTurn] at h

namespace Moment

/-- Whether a step ends by a deed. -/
def endsStep (m : Moment) (d : Deed) : Bool :=
  (m.running.isSome || (m.starts? d).isSome) && (m.after d).running.isNone

/-- Whether a step has ended by the last of some deeds. -/
def hasEnded (ended : Bool) : Moment → List Deed → Bool
  | _, [] => ended
  | m, d :: ds => hasEnded (m.endsStep d) (m.after d) ds

/-- When a step has ended, before some deeds or by one of them, the next deed starts the step at the
front if that can start. -/
def DrivenFrom (ended : Bool) : Moment → List Deed → Prop
  | _, [] => True
  | m, d :: ds => (ended → m.engine.queue.begin?.isSome → d.isTurn) ∧
      DrivenFrom (m.endsStep d) (m.after d) ds

/-- In a run the queue is driven whenever a step has ended. -/
def Driven (m : Moment) (ds : List Deed) : Prop := DrivenFrom false m ds

instance : ∀ (ended : Bool) (m : Moment) (ds : List Deed), Decidable (DrivenFrom ended m ds)
  | _, _, [] => .isTrue trivial
  | _, m, d :: ds =>
    have := instDecidableDrivenFrom (m.endsStep d) (m.after d) ds
    inferInstanceAs (Decidable (_ ∧ _))

instance (m : Moment) (ds : List Deed) : Decidable (m.Driven ds) :=
  inferInstanceAs (Decidable (DrivenFrom false m ds))

variable {m : Moment} {ended : Bool} {d : Deed} {ds ds' : List Deed}

/-- When a step has ended none runs. -/
theorem running_of_endsStep (h : m.endsStep d) : (m.after d).running = none := by
  simp only [endsStep, Bool.and_eq_true, Option.isNone_iff_eq_none] at h
  exact h.2

theorem endsStep_of_starts {s : Step} (hstarts : m.starts? d = some s)
    (hafter : (m.after d).running = none) : m.endsStep d := by
  simp [endsStep, hstarts, hafter]

theorem drivenFrom_append : ∀ {ended : Bool} {m : Moment} {ds : List Deed},
    DrivenFrom ended m (ds ++ ds') ↔
      DrivenFrom ended m ds ∧ DrivenFrom (hasEnded ended m ds) (m.run ds) ds'
  | _, _, [] => by simp [DrivenFrom, hasEnded, run]
  | _, m, d :: ds => by
    rw [List.cons_append, DrivenFrom, DrivenFrom, hasEnded, run_cons, and_assoc]
    exact and_congr_right fun _ => drivenFrom_append

/-! ## What the queue does by itself -/

/-- What the queue does unasked is driven, without the deeds that are out of place. -/
theorem exists_drivenFrom (hended : ended → m.running = none) (hunasked : ∀ d ∈ ds, d.Unasked) :
    ∃ ds', m.run ds' = m.run ds ∧ DrivenFrom ended m ds' := by
  induction ds generalizing m ended with
  | nil => exact ⟨[], rfl, trivial⟩
  | cons d ds ih =>
    have hrest := fun d hd => hunasked d (List.mem_cons_of_mem _ hd)
    have hnow := hunasked d List.mem_cons_self
    -- A turn while a script runs, and a script that goes on while none runs, do nothing.
    have hskip : m.after d = m → ∃ ds', m.run ds' = m.run (d :: ds) ∧ DrivenFrom ended m ds' :=
      fun hsame => by
        rw [run_cons, hsame]
        exact ih hended hrest
    have hdo : (ended → m.engine.queue.begin?.isSome → d.isTurn) →
        ∃ ds', m.run ds' = m.run (d :: ds) ∧ DrivenFrom ended m ds' := fun hturn => by
      obtain ⟨ds', hrun, hdriven⟩ := ih running_of_endsStep hrest
      exact ⟨d :: ds', by rw [run_cons, run_cons, hrun], hturn, hdriven⟩
    obtain ⟨e, running⟩ := m
    cases d with
    | call c => exact hnow.elim
    | answer p n => exact hnow.elim
    | turn =>
      cases running with
      | none => exact hdo fun _ _ => rfl
      | some r => exact hskip (by obtain ⟨task, script⟩ := r; cases task <;> cases script <;> rfl)
    | go =>
      cases running with
      | none => exact hskip rfl
      | some r => exact hdo fun h => by simp at hended; simp [hended] at h

end Moment

/-! ## Requests -/

namespace Request

/-- By the request no step starts: it is its deed and nothing else. So it is with what does not run
the queue, and with what is refused. -/
def StartsNothing (r : Request) (fuel : Nat) (e : Engine) : Prop :=
  Moment.run ⟨e, none⟩ (r.deed? e).toList = ⟨((r.play fuel).ends e).2, none⟩ ∧
    ∀ d ∈ r.deed? e, Moment.starts? ⟨e, none⟩ d = none

/-- A request is a driven run, if the queue rests when it comes or no step has ended just before. -/
theorem run_driven (r : Request) (fuel : Nat) (e : Engine) (ended : Bool)
    (hended : ended → e.queue.Rests)
    (hsettles : r.StartsNothing fuel e ∨ ((r.play fuel).ends e).2.queue.Rests) :
    ∃ ds, Moment.run ⟨e, none⟩ ds = ⟨((r.play fuel).ends e).2, none⟩ ∧
      Moment.DrivenFrom ended ⟨e, none⟩ ds ∧
      (Moment.hasEnded ended ⟨e, none⟩ ds → ((r.play fuel).ends e).2.queue.Rests) := by
  have hfirst : ended → e.queue.begin?.isSome → False := fun h hbegin => by
    simp [StepQueue.begin?_of_rests (hended h)] at hbegin
  rcases hsettles with ⟨hrun, hstarts⟩ | hrests
  · refine ⟨(r.deed? e).toList, hrun, ?_, ?_⟩
    · cases r.deed? e with
      | none => exact trivial
      | some d => exact ⟨fun h hbegin => (hfirst h hbegin).elim, trivial⟩
    · cases hdeed : r.deed? e with
      | none =>
        rw [hdeed] at hrun
        obtain ⟨hsame, -⟩ := Moment.mk.inj hrun
        exact hsame ▸ hended
      | some d =>
        -- No step ends by it.
        intro h
        simp [Moment.hasEnded, Moment.endsStep, hstarts d hdeed] at h
  · obtain ⟨ds, hunasked, hrun⟩ := r.run fuel e
    cases hdeed : r.deed? e with
    | none =>
      rw [hdeed] at hrun
      obtain ⟨ds', hsame, hdriven⟩ := Moment.exists_drivenFrom (m := ⟨e, none⟩)
        (fun _ : ended => rfl) hunasked
      exact ⟨ds', hsame.trans hrun, hdriven, fun _ => hrests⟩
    | some d =>
      rw [hdeed] at hrun
      obtain ⟨ds', hsame, hdriven⟩ := Moment.exists_drivenFrom
        (m := Moment.after ⟨e, none⟩ d) Moment.running_of_endsStep hunasked
      refine ⟨d :: ds', ?_, ⟨fun h hbegin => (hfirst h hbegin).elim, hdriven⟩, fun _ => hrests⟩
      rw [Moment.run_cons, hsame]
      exact hrun

/-- What the engine comes to by some requests, with the turns of the queue that each may take. -/
def playAll (e : Engine) (rs : List (Request × Nat)) : Engine :=
  rs.foldl (fun e r => ((r.1.play r.2).ends e).2) e

/-- Each request that runs the queue runs it until it rests. -/
def Settled : Engine → List (Request × Nat) → Prop
  | _, [] => True
  | e, (r, fuel) :: rs =>
    (r.StartsNothing fuel e ∨ ((r.play fuel).ends e).2.queue.Rests) ∧
      Settled ((r.play fuel).ends e).2 rs

/-- Requests that come one after the other are a driven run. -/
theorem exists_drivenFrom (rs : List (Request × Nat)) (e : Engine) (ended : Bool)
    (hended : ended → e.queue.Rests) (hsettled : Settled e rs) :
    ∃ ds, Moment.run ⟨e, none⟩ ds = ⟨playAll e rs, none⟩ ∧
      Moment.DrivenFrom ended ⟨e, none⟩ ds := by
  induction rs generalizing e ended with
  | nil => exact ⟨[], rfl, trivial⟩
  | cons r rs ih =>
    obtain ⟨r, fuel⟩ := r
    obtain ⟨hsettles, hsettled⟩ := hsettled
    obtain ⟨ds, hrun, hdriven, hrests⟩ := r.run_driven fuel e ended hended hsettles
    obtain ⟨ds', hrun', hdriven'⟩ := ih _ _ hrests hsettled
    refine ⟨ds ++ ds', ?_, Moment.drivenFrom_append.mpr ⟨hdriven, hrun ▸ hdriven'⟩⟩
    rw [Moment.run_append, hrun, hrun']
    rfl

theorem exists_driven (b : Board) (rs : List (Request × Nat)) (hsettled : Settled (.new b) rs) :
    ∃ ds, (Moment.start b).run ds = ⟨playAll (.new b) rs, none⟩ ∧ (Moment.start b).Driven ds :=
  exists_drivenFrom rs (.new b) false (by simp) hsettled

end Request

end Doomtown
