import Doomtown.Proofs.Play

/-!
# Plays that agree

Two plays agree on a relation of states if from related states they end alike: both answer, and the
answers go together, or both fail with the same error, and in either case the states that they leave
are related again. `Play.Agree` is closed under the ways in which plays are composed, so plays of
one shape agree if their parts do.
-/

namespace Doomtown.Play

variable {σ α β : Type} {R : σ → σ → Prop} {Q : α → α → Prop} {Q' : β → β → Prop}

/-- Two endings go together: in related states, with answers that go together or the same error. -/
inductive Tally (R : σ → σ → Prop) (Q : α → α → Prop) :
    Except RulesError α × σ → Except RulesError α × σ → Prop where
  | ok {a a' : α} {s s' : σ} (answer : Q a a') (state : R s s') : Tally R Q (.ok a, s) (.ok a', s')
  | error {s s' : σ} (e : RulesError) (state : R s s') : Tally R Q (.error e, s) (.error e, s')

namespace Tally

variable {r r' : Except RulesError α × σ}

theorem state (h : Tally R Q r r') : R r.2 r'.2 := by
  cases h with
  | ok _ hstate => exact hstate
  | error _ hstate => exact hstate

/-- Where equal answers go together, the results are equal. -/
theorem result_eq (h : Tally R Eq r r') : r.1 = r'.1 := by
  cases h with
  | ok hanswer _ => exact congrArg Except.ok hanswer
  | error e _ => rfl

theorem of_eq {o o' : Except RulesError α} {s s' : σ} (ho : o = o') (h : R s s') :
    Tally R Eq (o, s) (o', s') := by
  subst ho
  cases o with
  | ok a => exact .ok rfl h
  | error e => exact .error e h

/-- What follows two plays that end alike ends alike, if it does for answers that go together. -/
theorem bind {p p' : Play σ α} {q q' : α → Play σ β} {s s' : σ}
    (hp : Tally R Q (p.ends s) (p'.ends s'))
    (hq : ∀ {a a' t t'}, Q a a' → R t t' → Tally R Q' ((q a).ends t) ((q' a').ends t')) :
    Tally R Q' ((p >>= q).ends s) ((p' >>= q').ends s') := by
  rw [ends_bind, ends_bind]
  generalize p.ends s = r at hp
  generalize p'.ends s' = r' at hp
  cases hp with
  | ok hanswer hstate => exact hq hanswer hstate
  | error e hstate => exact .error e hstate

end Tally

/-- Two plays end alike from related states. -/
def Agree (R : σ → σ → Prop) (Q : α → α → Prop) (p p' : Play σ α) : Prop :=
  ∀ s s', R s s' → Tally R Q (p.ends s) (p'.ends s')

namespace Agree

variable {p p' : Play σ α} {q q' : α → Play σ β}

theorem answer {a a' : α} (h : Q a a') : Agree R Q (Play.answer a) (Play.answer a') :=
  fun _ _ hs => .ok h hs

theorem fail (e : RulesError) : Agree R Q (Play.fail e : Play σ α) (Play.fail e) :=
  fun _ _ hs => .error e hs

/-- Log entries need not be the same. -/
theorem log (e e' : LogEntry) : Agree R Eq (Play.log e) (Play.log e') := fun _ _ hs => .ok rfl hs

theorem trace (line line' : String) : Agree R Eq (Play.trace line) (Play.trace line') :=
  log _ _

theorem change {f f' : σ → σ} (h : ∀ {s s'}, R s s' → R (f s) (f' s')) :
    Agree R Eq (Play.change f) (Play.change f') := fun _ _ hs => .ok rfl (h hs)

theorem view {f f' : σ → α} (h : ∀ {s s'}, R s s' → Q (f s) (f' s')) :
    Agree R Q (Play.view f) (Play.view f') := fun _ _ hs => .ok (h hs) hs

theorem bind (hp : Agree R Q p p') (hq : ∀ {a a'}, Q a a' → Agree R Q' (q a) (q' a')) :
    Agree R Q' (p >>= q) (p' >>= q') := fun s s' hs =>
  (hp s s' hs).bind fun ha ht => hq ha _ _ ht

/-- Where the first answers are the same, what follows gets one of them. -/
theorem bind_eq (hp : Agree R Eq p p') (hq : ∀ a, Agree R Q' (q a) (q' a)) :
    Agree R Q' (p >>= q) (p' >>= q') := hp.bind fun {a _} ha => ha ▸ hq a

/-- To look at the state is to go on from it. -/
theorem bind_look {q q' : σ → Play σ β}
    (hq : ∀ {s s'}, R s s' → Tally R Q' ((q s).ends s) ((q' s').ends s')) :
    Agree R Q' (look >>= q) (look >>= q') := fun s s' hs => by
  rw [ends_bind_ok (ends_look _), ends_bind_ok (ends_look _)]
  exact hq hs

/-- What follows a look agrees if it does whichever related states were seen. -/
theorem bind_seen {q q' : σ → Play σ β} (hq : ∀ {s s'}, R s s' → Agree R Q' (q s) (q' s')) :
    Agree R Q' (look >>= q) (look >>= q') := .bind_look fun hs => hq hs _ _ hs

theorem discard (hp : Agree R Q p p') :
    Agree R Eq (Functor.discard p) (Functor.discard p') := fun s s' hs => by
  rw [ends_discard, ends_discard]
  have hends := hp s s' hs
  generalize p.ends s = r at hends
  generalize p'.ends s' = r' at hends
  cases hends with
  | ok _ hstate => exact .ok rfl hstate
  | error e hstate => exact .error e hstate

/-- How a play ends is the answer of its attempt. -/
theorem attempt (hp : Agree R Eq p p') : Agree R Eq p.attempt p'.attempt := fun s s' hs => by
  rw [ends_attempt, ends_attempt]
  exact .ok (hp s s' hs).result_eq (hp s s' hs).state

theorem ofExcept (r : Except RulesError α) :
    Agree R Eq (Play.ofExcept r) (Play.ofExcept r) := fun s s' hs => by
  rw [ends_ofExcept, ends_ofExcept]
  exact .of_eq rfl hs

theorem ite {c : Prop} [Decidable c] {p₁ p₁' : Play σ α} (hp : Agree R Q p p')
    (hp₁ : Agree R Q p₁ p₁') : Agree R Q (if c then p else p₁) (if c then p' else p₁') := by
  split
  · exact hp
  · exact hp₁

end Agree

end Doomtown.Play
