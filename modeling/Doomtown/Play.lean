import Doomtown.Error
import Doomtown.Log

/-!
# Plays

A play is a computation on a state `σ` that can fail and leaves log entries. What it did before
failing stays done: `Outcome.state` is there in either case. A play cannot read the entries.
-/

namespace Doomtown

/-- How a play ended: its answer or error, the state it leaves, and the entries it logged. -/
structure Outcome (σ α : Type) where
  result : Except RulesError α
  state : σ
  entries : List LogEntry

/-- A computation on a state `σ` with answer `α`. -/
def Play (σ α : Type) : Type := σ → Outcome σ α

namespace Play

variable {σ τ α β : Type}

/-- Answer without doing anything. -/
def answer (a : α) : Play σ α := fun s => ⟨.ok a, s, []⟩

/-- Fail without doing anything. -/
def fail (e : RulesError) : Play σ α := fun s => ⟨.error e, s, []⟩

/-- One play after the other; a failure of the first ends both. -/
def andThen (p : Play σ α) (q : α → Play σ β) : Play σ β := fun s =>
  let o := p s
  match o.result with
  | .error e => ⟨.error e, o.state, o.entries⟩
  | .ok a =>
    let o' := q a o.state
    ⟨o'.result, o'.state, o.entries ++ o'.entries⟩

instance : Monad (Play σ) where
  pure := answer
  bind := andThen

/-- Play, and answer how it ended instead of failing. -/
def attempt (p : Play σ α) : Play σ (Except RulesError α) := fun s =>
  let o := p s
  ⟨.ok o.result, o.state, o.entries⟩

/-- Fail, or go on with what was found. -/
def ofExcept : Except RulesError α → Play σ α
  | .ok a => answer a
  | .error e => fail e

/-- The state. -/
def look : Play σ σ := fun s => ⟨.ok s, s, []⟩

/-- What a function sees in the state. -/
def view (f : σ → α) : Play σ α := fun s => ⟨.ok (f s), s, []⟩

/-- Change the state. -/
def change (f : σ → σ) : Play σ Unit := fun s => ⟨.ok (), f s, []⟩

/-- Log an entry. -/
def log (e : LogEntry) : Play σ Unit := fun s => ⟨.ok (), s, [e]⟩

/-- Log a line of the engine's trace. -/
def trace (line : String) : Play σ Unit := log (.ofTrace line)

/-- Play on a part of a larger state. -/
def within (part : τ → σ) (put : σ → τ → τ) (p : Play σ α) : Play τ α := fun t =>
  let o := p (part t)
  ⟨o.result, put o.state t, o.entries⟩

/-! ## Repetition -/

/-- `repeatedly` from a state that plays have led to whose log entries, last first, are `logged`.
The entries are collected on the way, so that the length of a run is no depth of calls. -/
def repeatFrom (p : Play σ (Option α)) : Nat → List LogEntry → σ → Outcome σ (Option α)
  | 0, logged, s => ⟨.ok none, s, logged.reverse⟩
  | n + 1, logged, s =>
    let o := p s
    let logged := o.entries.reverse ++ logged
    match o.result with
    | .error e => ⟨.error e, o.state, logged.reverse⟩
    | .ok (some a) => ⟨.ok (some a), o.state, logged.reverse⟩
    | .ok none => repeatFrom p n logged o.state

/-- Play again and again until something is answered, at most `n` times. -/
def repeatedly (n : Nat) (p : Play σ (Option α)) : Play σ (Option α) := repeatFrom p n []

/-! ## Laws -/

theorem id_map_play (p : Play σ α) : id <$> p = p := by
  funext s
  show (p.andThen fun a => answer a) s = p s
  simp only [andThen, answer, List.append_nil]
  split <;> rename_i h <;> simp [← h]

theorem andThen_assoc {γ : Type} (p : Play σ α) (q : α → Play σ β) (r : β → Play σ γ) :
    (p.andThen q).andThen r = p.andThen fun a => (q a).andThen r := by
  funext s
  simp only [andThen]
  cases (p s).result with
  | error e => rfl
  | ok a =>
    simp only
    cases (q a (p s).state).result with
    | error e => rfl
    | ok b => simp [List.append_assoc]

instance : LawfulMonad (Play σ) :=
  LawfulMonad.mk' (Play σ) id_map_play (fun _ _ => rfl) andThen_assoc

theorem repeatFrom_eq (p : Play σ (Option α)) :
    ∀ (n : Nat) (logged : List LogEntry) (s : σ),
      repeatFrom p n logged s =
        ⟨(repeatedly n p s).result, (repeatedly n p s).state,
          logged.reverse ++ (repeatedly n p s).entries⟩
  | 0, logged, s => by simp [repeatFrom, repeatedly]
  | n + 1, logged, s => by
    simp only [repeatedly, repeatFrom]
    split
    · simp
    · simp
    · rw [repeatFrom_eq p n, repeatFrom_eq p n (_ ++ [])]
      simp

/-- Repetition without a turn left answers nothing. -/
theorem repeatedly_zero (p : Play σ (Option α)) : repeatedly 0 p = answer none := rfl

/-- Repetition plays once and goes on if nothing was answered. -/
theorem repeatedly_succ (n : Nat) (p : Play σ (Option α)) :
    repeatedly (n + 1) p = (do
      match ← p with
      | some a => answer (some a)
      | none => repeatedly n p) := by
  funext s
  show repeatFrom p (n + 1) [] s = p.andThen _ s
  simp only [repeatFrom, andThen]
  split <;> rename_i h <;> simp only [h]
  · simp
  · simp [answer]
  · rw [repeatFrom_eq]
    simp

end Play

end Doomtown
