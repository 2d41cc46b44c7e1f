import Doomtown.Play
import Mathlib.Logic.Relation

/-!
# How plays end

What a play answers and the state that it leaves, its log entries aside. `Play.ends` is
compositional: the ending of a sequence of plays is computed from the endings of its parts, by the
equations below. `Play.Chains` says of a play that it is made of steps of one relation, so that
whatever the steps preserve, the play preserves.
-/

namespace Doomtown.Play

variable {σ τ α β : Type}

/-- The answer or error of a play, and the state that it leaves. -/
def ends (p : Play σ α) (s : σ) : Except RulesError α × σ := ((p s).result, (p s).state)

/-! ## Endings of the elementary plays -/

@[simp] theorem ends_answer (a : α) (s : σ) : (answer a : Play σ α).ends s = (.ok a, s) := rfl

@[simp] theorem ends_pure (a : α) (s : σ) : (pure a : Play σ α).ends s = (.ok a, s) := rfl

@[simp] theorem ends_fail (e : RulesError) (s : σ) :
    (fail e : Play σ α).ends s = (.error e, s) := rfl

@[simp] theorem ends_look (s : σ) : (look : Play σ σ).ends s = (.ok s, s) := rfl

@[simp] theorem ends_view (f : σ → α) (s : σ) : (view f).ends s = (.ok (f s), s) := rfl

@[simp] theorem ends_change (f : σ → σ) (s : σ) : (change f).ends s = (.ok (), f s) := rfl

@[simp] theorem ends_log (e : LogEntry) (s : σ) : (log e).ends s = (.ok (), s) := rfl

@[simp] theorem ends_trace (line : String) (s : σ) : (trace line).ends s = (.ok (), s) := rfl

@[simp] theorem ends_ofExcept (r : Except RulesError α) (s : σ) :
    (ofExcept r).ends s = (r, s) := by
  cases r <;> rfl

/-! ## Endings of composed plays -/

/-- A sequence of plays ends as its second part does, from where the first part ended, or with the
error of the first part. -/
theorem ends_bind (p : Play σ α) (q : α → Play σ β) (s : σ) :
    (p >>= q).ends s = match p.ends s with
      | (.ok a, s') => (q a).ends s'
      | (.error e, s') => (.error e, s') := by
  show ((p.andThen q s).result, (p.andThen q s).state) = _
  unfold ends andThen
  cases h : (p s).result with
  | error e => simp only [h]
  | ok a => simp only [h]

/-- A sequence whose first part succeeds. -/
theorem ends_bind_ok {p : Play σ α} {s s' : σ} {a : α} (h : p.ends s = (.ok a, s'))
    (q : α → Play σ β) : (p >>= q).ends s = (q a).ends s' := by
  rw [ends_bind, h]

/-- A sequence whose first part fails. -/
theorem ends_bind_error {p : Play σ α} {s s' : σ} {e : RulesError}
    (h : p.ends s = (.error e, s')) (q : α → Play σ β) :
    (p >>= q).ends s = (.error e, s') := by
  rw [ends_bind, h]

/-- A sequence that answers has parts that answer. -/
theorem ok_of_bind {p : Play σ α} {q : α → Play σ β} {s s' : σ} {b : β}
    (h : (p >>= q).ends s = (.ok b, s')) :
    ∃ a s₁, p.ends s = (.ok a, s₁) ∧ (q a).ends s₁ = (.ok b, s') := by
  rw [ends_bind] at h
  rcases hp : p.ends s with ⟨e | a, s₁⟩
  · simp [hp] at h
  · rw [hp] at h
    exact ⟨a, s₁, rfl, h⟩

/-- Changing the answer changes nothing else. -/
theorem ends_map (f : α → β) (p : Play σ α) (s : σ) :
    (f <$> p).ends s = ((p.ends s).1.map f, (p.ends s).2) := by
  rw [← bind_pure_comp, ends_bind]
  rcases p.ends s with ⟨r | r, s'⟩ <;> rfl

/-- Dropping the answer changes nothing else. -/
theorem ends_discard (p : Play σ α) (s : σ) :
    (discard p).ends s = ((p.ends s).1.map fun _ => (), (p.ends s).2) :=
  ends_map _ p s

/-- An answer given behind a play leaves the state that the play leaves. -/
theorem state_then_answer (p : Play σ α) (b : β) (s : σ) :
    ((do let _ ← p; answer b : Play σ β).ends s).2 = (p.ends s).2 := by
  rw [ends_bind]
  rcases p.ends s with ⟨_ | _, _⟩ <;> rfl

@[simp] theorem ends_attempt (p : Play σ α) (s : σ) :
    p.attempt.ends s = (.ok (p.ends s).1, (p.ends s).2) := rfl

@[simp] theorem ends_within (part : τ → σ) (put : σ → τ → τ) (p : Play σ α) (t : τ) :
    (within part put p).ends t = ((p.ends (part t)).1, put (p.ends (part t)).2 t) := rfl

/-! ## Plays made of steps -/

/-- From whatever state the play starts, a chain of `R` leads to the state in which it ends. -/
def Chains (R : σ → σ → Prop) (p : Play σ α) : Prop :=
  ∀ s, Relation.ReflTransGen R s (p.ends s).2

/-- A chain of a relation that is reflexive and transitive is a link of it. -/
theorem link_of_chain {R : σ → σ → Prop} {s s' : σ} (hrefl : ∀ s, R s s)
    (htrans : ∀ {s₁ s₂ s₃}, R s₁ s₂ → R s₂ s₃ → R s₁ s₃) (h : Relation.ReflTransGen R s s') :
    R s s' := by
  induction h with
  | refl => exact hrefl _
  | tail _ hlast ih => exact htrans ih hlast

namespace Chains

variable {R : σ → σ → Prop} {p : Play σ α} {q : α → Play σ β}

/-- A play that leaves the state alone is an empty chain. -/
theorem of_state_eq (h : ∀ s, (p.ends s).2 = s) : p.Chains R := fun s => by
  rw [h s]

/-- A play that is one step is a chain. -/
theorem single (h : ∀ s, R s (p.ends s).2) : p.Chains R := fun s => .single (h s)

theorem answer (a : α) : (Play.answer a : Play σ α).Chains R := of_state_eq fun _ => rfl

theorem pure (a : α) : (Pure.pure a : Play σ α).Chains R := of_state_eq fun _ => rfl

theorem fail (e : RulesError) : (Play.fail e : Play σ α).Chains R := of_state_eq fun _ => rfl

theorem look : (Play.look : Play σ σ).Chains R := of_state_eq fun _ => rfl

theorem view (f : σ → α) : (Play.view f).Chains R := of_state_eq fun _ => rfl

theorem log (e : LogEntry) : (Play.log e : Play σ Unit).Chains R := of_state_eq fun _ => rfl

theorem trace (line : String) : (Play.trace line : Play σ Unit).Chains R :=
  of_state_eq fun _ => rfl

theorem ofExcept (r : Except RulesError α) : (Play.ofExcept r : Play σ α).Chains R :=
  of_state_eq fun s => by rw [ends_ofExcept]

theorem change {f : σ → σ} (h : ∀ s, R s (f s)) : (Play.change f).Chains R := single h

/-- The chains of the parts of a sequence make up the chain of the whole. -/
theorem bind (hp : p.Chains R) (hq : ∀ a, (q a).Chains R) : (p >>= q).Chains R := fun s => by
  have h := hp s
  rw [ends_bind]
  rcases hr : p.ends s with ⟨e | a, s'⟩
  · rw [hr] at h
    exact h
  · rw [hr] at h
    exact h.trans (hq a s')

/-- A sequence that looks at the state first may use what it sees. -/
theorem bind_look {q : σ → Play σ β} (h : ∀ s, Relation.ReflTransGen R s ((q s).ends s).2) :
    (Play.look >>= q).Chains R := fun s => by
  rw [ends_bind, ends_look]
  exact h s

theorem map (f : α → β) (hp : p.Chains R) : (f <$> p).Chains R := fun s => by
  rw [ends_map]
  exact hp s

theorem discard (hp : p.Chains R) : (discard p).Chains R := fun s => by
  rw [ends_discard]
  exact hp s

theorem attempt (hp : p.Chains R) : p.attempt.Chains R := hp

theorem within {part : τ → σ} {put : σ → τ → τ} {S : τ → τ → Prop} (h : ∀ t s, S t (put s t)) :
    (Play.within part put p).Chains S := single fun t => h t _

theorem ite {c : Prop} [Decidable c] {p q : Play σ α} (hp : p.Chains R) (hq : q.Chains R) :
    (if c then p else q).Chains R := by
  split
  · exact hp
  · exact hq

theorem repeatedly {p : Play σ (Option α)} (hp : p.Chains R) :
    ∀ n, (Play.repeatedly n p).Chains R
  | 0 => answer none
  | n + 1 => by
    rw [repeatedly_succ]
    refine bind hp fun r => ?_
    cases r with
    | none => exact repeatedly hp n
    | some a => exact answer (some a)

/-- A finer relation makes a finer chain. -/
theorem mono {S : σ → σ → Prop} (hp : p.Chains R) (h : ∀ s s', R s s' → S s s') : p.Chains S :=
  fun s => Relation.ReflTransGen.mono h _ _ (hp s)

end Chains

end Doomtown.Play
