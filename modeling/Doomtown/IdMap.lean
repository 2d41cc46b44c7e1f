import Std.Data.ExtTreeMap
import Doomtown.Id

/-!
# Finite maps from identifiers

`IdMap k α` files values under identifiers of kind `k`. Two maps that answer every lookup alike
are equal (`IdMap.ext_get?`), and the entries are listed in ascending order of identifier, each
identifier once (`IdMap.entries_ascending`).
-/

namespace Doomtown

variable {k : Kind} {α : Type}

/-- A finite map from identifiers of kind `k` to `α`. -/
structure IdMap (k : Kind) (α : Type) where
  /-- The values by the numbers of their identifiers. -/
  byNumber : Std.ExtTreeMap Nat α

namespace IdMap

/-- The map without entries. -/
def empty : IdMap k α := ⟨∅⟩

instance : Inhabited (IdMap k α) := ⟨empty⟩

/-- The value filed under `i`. -/
def get? (m : IdMap k α) (i : Id k) : Option α := m.byNumber[i.number]?

/-- Whether something is filed under `i`. -/
def contains (m : IdMap k α) (i : Id k) : Bool := (m.get? i).isSome

/-- File `a` under `i`, in place of what was there. -/
def insert (m : IdMap k α) (i : Id k) (a : α) : IdMap k α := ⟨m.byNumber.insert i.number a⟩

/-- Take out what is filed under `i`. -/
def erase (m : IdMap k α) (i : Id k) : IdMap k α := ⟨m.byNumber.erase i.number⟩

/-- Change the value filed under `i`, if there is one. -/
def modify (m : IdMap k α) (i : Id k) (f : α → α) : IdMap k α := ⟨m.byNumber.modify i.number f⟩

/-- The identifiers with their values, ascending. -/
def entries (m : IdMap k α) : List (Id k × α) := m.byNumber.toList.map fun e => (⟨e.1⟩, e.2)

/-- The identifiers in use, ascending. -/
def keys (m : IdMap k α) : List (Id k) := m.entries.map Prod.fst

/-- How many identifiers are in use. -/
def size (m : IdMap k α) : Nat := m.byNumber.size

/-- File every pair of a list in turn; of two with one identifier the later stays. -/
def ofList (l : List (Id k × α)) : IdMap k α :=
  l.foldl (fun m e => m.insert e.1 e.2) empty

/-! ## Lookups -/

@[simp] theorem get?_empty (i : Id k) : (empty : IdMap k α).get? i = none :=
  Std.ExtTreeMap.getElem?_empty

theorem compare_eq_iff {i j : Id k} : compare i.number j.number = .eq ↔ i = j :=
  ⟨fun h => Id.number_injective (Std.LawfulEqOrd.eq_of_compare h), fun h => by rw [h]; simp⟩

theorem get?_insert (m : IdMap k α) (i j : Id k) (a : α) :
    (m.insert i a).get? j = if i = j then some a else m.get? j := by
  simp only [get?, insert, Std.ExtTreeMap.getElem?_insert, compare_eq_iff]

theorem get?_erase (m : IdMap k α) (i j : Id k) :
    (m.erase i).get? j = if i = j then none else m.get? j := by
  simp only [get?, erase, Std.ExtTreeMap.getElem?_erase, compare_eq_iff]

theorem get?_modify (m : IdMap k α) (i j : Id k) (f : α → α) :
    (m.modify i f).get? j = if i = j then (m.get? j).map f else m.get? j := by
  simp only [get?, modify, Std.ExtTreeMap.getElem?_modify, compare_eq_iff]
  split
  · rename_i h; rw [h]
  · rfl

/-- What is filed under the identifier is changed. -/
theorem get?_modify_self {m : IdMap k α} {i : Id k} {a : α} (h : m.get? i = some a) (f : α → α) :
    (m.modify i f).get? i = some (f a) := by
  rw [get?_modify, if_pos rfl, h]
  rfl

/-- What is filed under others is not. -/
theorem get?_modify_of_ne (m : IdMap k α) {i j : Id k} (h : i ≠ j) (f : α → α) :
    (m.modify i f).get? j = m.get? j := by
  rw [get?_modify, if_neg h]

/-- Maps are told apart by a lookup. -/
theorem ext_get? {m n : IdMap k α} (h : ∀ i, m.get? i = n.get? i) : m = n := by
  cases m; cases n
  exact congrArg IdMap.mk (Std.ExtTreeMap.ext_getElem? fun i => h ⟨i⟩)

/-! ## Changes -/

/-- Two changes in a row are one change. -/
theorem modify_modify (m : IdMap k α) (i : Id k) (f g : α → α) :
    (m.modify i f).modify i g = m.modify i (g ∘ f) := by
  refine ext_get? fun j => ?_
  simp only [get?_modify]
  split
  · rw [Option.map_map]
  · rfl

/-- Only the change of what is filed matters. -/
theorem modify_congr {m : IdMap k α} {i : Id k} {f g : α → α}
    (h : ∀ a, m.get? i = some a → f a = g a) : m.modify i f = m.modify i g := by
  refine ext_get? fun j => ?_
  simp only [get?_modify]
  split
  · rename_i hij
    rw [← hij]
    cases ha : m.get? i with
    | none => rfl
    | some a => exact congrArg some (h a ha)
  · rfl

/-- A change that leaves what is filed as it is changes nothing. -/
theorem modify_eq_self {m : IdMap k α} {i : Id k} {f : α → α}
    (h : ∀ a, m.get? i = some a → f a = a) : m.modify i f = m := by
  refine ext_get? fun j => ?_
  simp only [get?_modify]
  split
  · rename_i hij
    rw [← hij]
    cases ha : m.get? i with
    | none => rfl
    | some a => exact congrArg some (h a ha)
  · rfl

/-- To change what was just filed is to file it changed. -/
theorem modify_insert (m : IdMap k α) (i : Id k) (a : α) (f : α → α) :
    (m.insert i a).modify i f = m.insert i (f a) := by
  refine ext_get? fun j => ?_
  simp only [get?_modify, get?_insert]
  split
  · rfl
  · rfl

/-- Changes of what is filed under different identifiers, or changes that commute, commute. -/
theorem modify_comm (m : IdMap k α) {i j : Id k} {f g : α → α}
    (h : i = j → ∀ a, f (g a) = g (f a)) :
    (m.modify i f).modify j g = (m.modify j g).modify i f := by
  refine ext_get? fun l => ?_
  simp only [get?_modify]
  by_cases hi : i = l <;> by_cases hj : j = l
  · simp only [hi, hj, if_true, Option.map_map]
    congr 1
    funext a
    exact (h (hi.trans hj.symm) a).symm
  all_goals simp [hi, hj]

/-! ## Entries -/

/-- The entries are what lookups find. -/
theorem get?_eq_some_iff {m : IdMap k α} {i : Id k} {a : α} :
    m.get? i = some a ↔ (i, a) ∈ m.entries := by
  simp only [get?, entries, List.mem_map, ← Std.ExtTreeMap.mem_toList_iff_getElem?_eq_some]
  constructor
  · exact fun h => ⟨_, h, rfl⟩
  · rintro ⟨e, h, he⟩
    cases he
    exact h

/-- The entries are in ascending order of identifier, none repeated. -/
theorem entries_ascending (m : IdMap k α) :
    m.entries.Pairwise fun a b => a.1.number < b.1.number := by
  rw [entries, List.pairwise_map]
  exact Std.ExtTreeMap.ordered_keys_toList.imp fun h => Nat.compare_eq_lt.1 h

/-- There are as many entries as identifiers in use. -/
theorem length_entries (m : IdMap k α) : m.entries.length = m.size := by
  rw [entries, List.length_map, Std.ExtTreeMap.length_toList, size]

end IdMap

end Doomtown
