import Mathlib.Data.List.Forall2
import Mathlib.Data.List.Induction
import Std.Data.String.ToNat
import Doomtown.Proofs.JsonText
import Doomtown.Saved

/-!
# What is saved is loaded again

When the saved form of a value is loaded as that value, for each way of putting saved forms
together: numbers within their bounds, lists, values that may be missing and pairs if all that is in
them is, maps if in addition their identifiers can be keys. A record whose fields have different
names is loaded from the members that were saved for them (`Saved.load_save_record`). Forms that
name every member once are `Saved.Legible`: their text is read as the form that was written.
-/

namespace Doomtown

/-! ## Maps and their entries -/

namespace IdMap

variable {k : Kind} {α : Type} {l : List (Id k × α)}

theorem nodup_keys_of_ascending (hl : l.Pairwise fun a b => a.1.number < b.1.number) :
    (l.map Prod.fst).Nodup := by
  rw [List.Nodup, List.pairwise_map]
  exact hl.imp fun h heq => absurd (heq ▸ h) (Nat.lt_irrefl _)

theorem ofList_concat (l : List (Id k × α)) (e : Id k × α) :
    ofList (l ++ [e]) = (ofList l).insert e.1 e.2 := by
  rw [ofList, List.foldl_concat, ← ofList]

/-- Of pairs that have each identifier once, a lookup finds what is listed. -/
theorem get?_ofList (hl : (l.map Prod.fst).Nodup) {i : Id k} {a : α} :
    (ofList l).get? i = some a ↔ (i, a) ∈ l := by
  induction l using List.reverseRecOn with
  | nil => simp [ofList]
  | append_singleton l e ih =>
    rw [List.map_append, List.nodup_append] at hl
    obtain ⟨hl, -, hne⟩ := hl
    rw [ofList_concat, get?_insert, List.mem_append, List.mem_singleton]
    obtain ⟨j, b⟩ := e
    split
    · rename_i hj
      have hnot : (i, a) ∉ l := fun hm => hne _ (List.mem_map_of_mem hm) j (by simp) hj.symm
      simp only [hnot, false_or, Prod.mk.injEq, Option.some.injEq]
      exact ⟨fun h => ⟨hj.symm, h.symm⟩, fun h => h.2.symm⟩
    · rename_i hj
      have hnot : (i, a) ≠ (j, b) := fun h => hj (Prod.mk.inj h).1.symm
      rw [ih hl, or_iff_left hnot]

/-- A map is what its entries file. -/
theorem ofList_entries (m : IdMap k α) : ofList m.entries = m :=
  ext_get? fun i => Option.ext fun a => by
    rw [get?_ofList (nodup_keys_of_ascending m.entries_ascending), get?_eq_some_iff]

/-- Pairs in ascending order are the entries of the map that they make. -/
theorem entries_ofList (hl : l.Pairwise fun a b => a.1.number < b.1.number) :
    (ofList l).entries = l := by
  have hnodup {l : List (Id k × α)} (hl : l.Pairwise fun a b => a.1.number < b.1.number) :
      l.Nodup := hl.imp fun h heq => absurd (heq ▸ h) (Nat.lt_irrefl _)
  have hperm : (ofList l).entries.Perm l :=
    (List.perm_ext_iff_of_nodup (hnodup (ofList l).entries_ascending) (hnodup hl)).2 fun e => by
      rw [← get?_ofList (nodup_keys_of_ascending hl), get?_eq_some_iff]
  exact hperm.eq_of_pairwise (fun _ _ _ _ h h' => absurd h (Nat.lt_asymm h'))
    (ofList l).entries_ascending hl

end IdMap

namespace Saved

variable {α β : Type} {k : Kind}

/-! ## Plain values -/

@[simp] theorem load_bool (b : Bool) : bool.load (.bool b) = some b := rfl

@[simp] theorem load_text (t : String) : text.load (.text t) = some t := rfl

theorem load_intIn {low high n : Int} :
    (intIn low high).load (.int n) = some n ↔ low ≤ n ∧ n < high := by
  simp [intIn, Json.int]

theorem load_natBelow {high n : Nat} : (natBelow high).load (.nat n) = some n ↔ n < high := by
  simp [natBelow, intIn, Json.nat, Json.int]

/-- What is saved as something else is loaded if that is. -/
theorem load_save_like {s : Saved α} {make : α → β} {part : β → α}
    (hmake : ∀ b, make (part b) = b) (hpart : ∀ a, part (make a) = a) {b : β} :
    (s.like make part).load ((s.like make part).save b) = some b ↔
      s.load (s.save (part b)) = some (part b) := by
  simp only [like, Option.map_eq_some_iff]
  constructor
  · rintro ⟨a, ha, rfl⟩
    rw [hpart] at ha ⊢
    exact ha
  · exact fun h => ⟨part b, h, hmake b⟩

/-! ## Compound values -/

theorem mapM_eq_some_iff {f : α → Option β} {l : List α} {r : List β} :
    l.mapM f = some r ↔ List.Forall₂ (fun a b => f a = some b) l r := by
  induction l generalizing r with
  | nil => cases r <;> simp
  | cons a l ih => cases r <;> simp [List.mapM_cons, Option.bind_eq_some_iff, ih]

@[simp] theorem load_save_list {s : Saved α} {l : List α} :
    s.list.load (s.list.save l) = some l ↔ ∀ a ∈ l, s.load (s.save a) = some a :=
  (mapM_eq_some_iff.trans List.forall₂_map_left_iff).trans List.forall₂_same

/-- Values that may be missing, where no value is saved as what is missing. -/
theorem load_save_option {s : Saved α} (hs : ∀ a, s.save a ≠ .null) {o : Option α} :
    s.option.load (s.option.save o) = some o ↔ ∀ a ∈ o, s.load (s.save a) = some a := by
  cases o with
  | none => simp [option]
  | some a =>
    have ha := hs a
    simp [option]

@[simp] theorem load_save_pair {s : Saved α} {t : Saved β} {p : α × β} :
    (s.pair t).load ((s.pair t).save p) = some p ↔
      s.load (s.save p.1) = some p.1 ∧ t.load (t.save p.2) = some p.2 := by
  obtain ⟨a, b⟩ := p
  simp [pair, Option.bind_eq_some_iff]

/-! ## Maps -/

theorem keyNumber?_text {i : Id k} :
    keyNumber? i.text = if i.number < UInt32.size then some i.number else none := by
  simp only [keyNumber?, Id.text, Nat.toString_eq_repr, Nat.toNat?_repr, and_true]

/-- A member is loaded as an entry of the identifier that its key writes. -/
theorem fst_of_memberPair? {s : Saved α} {i : Id k} {j : Json} {e : Id k × α}
    (h : memberPair? s (i.text, j) = some e) : i = e.1 := by
  simp only [memberPair?, keyNumber?_text, Option.bind_eq_bind, Option.bind_eq_some_iff] at h
  obtain ⟨n, hn, a, -, he⟩ := h
  cases he
  split at hn
  · cases hn; rfl
  · cases hn

theorem memberPair?_eq_some_iff {s : Saved α} {e : Id k × α} :
    memberPair? s (e.1.text, s.save e.2) = some e ↔
      e.1.number < UInt32.size ∧ s.load (s.save e.2) = some e.2 := by
  obtain ⟨⟨n⟩, a⟩ := e
  simp only [memberPair?, keyNumber?_text]
  split <;> simp [Option.bind_eq_some_iff, *]

/-- A map is loaded again if each of its entries is. -/
theorem load_save_map {s : Saved α} {m : IdMap k α} :
    s.map.load (s.map.save m) = some m ↔
      ∀ i a, m.get? i = some a → i.number < UInt32.size ∧ s.load (s.save a) = some a := by
  have hmap : s.map.load (s.map.save m) = some m ↔
      List.Forall₂ (fun e e' : Id k × α => memberPair? s (e.1.text, s.save e.2) = some e')
        m.entries m.entries := by
    simp only [map, Option.map_eq_some_iff, mapM_eq_some_iff, List.forall₂_map_left_iff]
    constructor
    · rintro ⟨l, hl, hm⟩
      -- The identifiers are loaded as they were listed, so that the pairs loaded ascend as well.
      have hkeys : m.entries.map Prod.fst = l.map Prod.fst := by
        rw [← List.forall₂_eq_eq_eq, List.forall₂_map_left_iff, List.forall₂_map_right_iff]
        exact hl.imp fun _ _ => fst_of_memberPair?
      have hascending : l.Pairwise fun a b => a.1.number < b.1.number := by
        have h := m.entries_ascending
        rwa [← List.pairwise_map (f := Prod.fst) (R := fun i j : Id k => i.number < j.number),
          hkeys, List.pairwise_map] at h
      rwa [← hm, IdMap.entries_ofList hascending] at hl ⊢
    · exact fun h => ⟨_, h, m.ofList_entries⟩
  rw [hmap, List.forall₂_same]
  simp only [memberPair?_eq_some_iff, IdMap.get?_eq_some_iff, Prod.forall]

/-! ## Records -/

theorem member?_of_mem {members : List (String × Json)} (hd : (members.map Prod.fst).Nodup)
    {m : String × Json} (hm : m ∈ members) : Json.member? m.1 members = some m.2 := by
  induction members with
  | nil => cases hm
  | cons first rest ih =>
    rw [List.map_cons, List.nodup_cons] at hd
    obtain rfl | hm := List.mem_cons.1 hm
    · rw [Json.member?, if_pos rfl]
    · have hne : first.1 ≠ m.1 := fun h => hd.1 (h ▸ List.mem_map_of_mem hm)
      rw [Json.member?, if_neg hne, ih hd.2 hm]

/-- The fields of an object under the names of its members are its members. -/
theorem fields?_object {members : List (String × Json)} (hd : (members.map Prod.fst).Nodup) :
    fields? (members.map Prod.fst) (.object members) = some (members.map fun m => some m.2) := by
  rw [fields?, members?, List.map_map]
  · exact congrArg some (List.map_congr_left fun m hm => member?_of_mem hd hm)
  · intro items h; cases h

/-- A record is loaded from the members that were saved for its fields. -/
theorem load_save_record (s : Saved α) (a : α) {names : List String}
    {fields : List (Option Json) → Option α} {members : List (String × Json)}
    (hload : ∀ j, s.load j = fields? names j >>= fields) (hsave : s.save a = .object members)
    (hn : members.map Prod.fst = names) (hd : names.Nodup) :
    s.load (s.save a) = fields (members.map fun m => some m.2) := by
  subst hn
  rw [hload, hsave, fields?_object hd]
  rfl

-- By rewriting, since to compare the two sides by evaluation would compute with the bounds.
theorem field_some (s : Saved α) (j : Json) : field s (some j) = s.load j := by rw [field]

/-! ## Written forms -/

/-- In what is saved, every object names its members once. -/
def Legible (s : Saved α) : Prop := ∀ a, (s.save a).Distinct

/-- What is written as a text is read as it was saved. -/
theorem Legible.read? {s : Saved α} (h : s.Legible) (a : α) :
    s.read? (s.save a).compact = s.load (s.save a) := by
  rw [Saved.read?, Json.parse?_compact (h a), Option.bind_some]

theorem Legible.list {s : Saved α} (h : s.Legible) : s.list.Legible := fun l => by
  rw [Saved.list, Json.Distinct, Json.distinctItems_iff, List.forall_mem_map]
  exact fun a _ => h a

theorem Legible.option {s : Saved α} (h : s.Legible) : s.option.Legible
  | none => trivial
  | some a => h a

theorem Legible.pair {s : Saved α} {t : Saved β} (h : s.Legible) (h' : t.Legible) :
    (s.pair t).Legible := fun p => ⟨h p.1, h' p.2, trivial⟩

/-- The keys of a map are different numbers. -/
theorem Legible.map {s : Saved α} (h : s.Legible) : (s.map (k := k)).Legible := fun m => by
  rw [Saved.map, Json.Distinct, Json.distinctMembers_iff, List.forall_mem_map, List.map_map]
  refine ⟨?_, fun e _ => h e.2⟩
  rw [List.Nodup, List.pairwise_map]
  refine m.entries_ascending.imp fun hlt heq => ?_
  have hnumber := Nat.repr_injective heq
  omega

end Saved

end Doomtown
