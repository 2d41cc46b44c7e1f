import Mathlib.Data.List.Forall2
import Mathlib.Data.List.Nodup
import Doomtown.Json.Parsed
import Doomtown.Proofs.JsonTokens

/-!
# JSON values are read back from their text

A pass over the compact text of a value finds tokens from which the value is parsed again
(`parse?_compact`), provided that every object in it names its members once: of several members of
one name the parser keeps only the last.

`Writes` relates characters to the tokens that a pass between two tokens reads them as, and
`Denotes` tokens to the value that is parsed from them. Both are closed under brackets, commas and
colons, so that `Represents`, the one after the other, follows the value (`represents_compact`).
-/

namespace Doomtown.Json

/-! ## Characters and their tokens -/

/-- Characters are written for tokens if a pass between two tokens reads them as these. -/
def Writes (cs : List Char) (ts : List Token) : Prop :=
  ∀ tokens, ∃ p, Scans (tokens, .between) cs p ∧ Stands p (ts.reverse ++ tokens)

section

variable {cs ds : List Char} {ts us : List Token} {t : Token} {c : Char}

theorem Writes.nil : Writes [] [] := fun _ => ⟨_, .nil, stands_between⟩

/-- What stands at the two sides of a bracket, a comma or a colon is read by itself. -/
theorem Writes.join (h : Writes cs ts) (hc : mark? c = some t) (h' : Writes ds us) :
    Writes (cs ++ c :: ds) (ts ++ t :: us) := by
  intro tokens
  obtain ⟨p, hp, hstands⟩ := h tokens
  obtain ⟨q, hq, hstands'⟩ := h' (t :: (ts.reverse ++ tokens))
  refine ⟨q, hp.append (.cons (hstands.mark hc) hq), ?_⟩
  simpa using hstands'

/-- Between two brackets. -/
theorem Writes.enclosed {opening closing : Char} (h : Writes cs ts) (ho : mark? opening = some t)
    {u : Token} (hc : mark? closing = some u) :
    Writes (opening :: (cs ++ [closing])) (t :: (ts ++ [u])) :=
  Writes.nil.join ho (h.join hc .nil)

/-- With a comma between each two. -/
theorem Writes.separated {css : List (List Char)} {tss : List (List Token)}
    (h : List.Forall₂ Writes css tss) :
    Writes ([','].intercalate css) ([.comma].intercalate tss) := by
  induction h with
  | nil => exact .nil
  | cons hfirst hrest ih =>
    cases hrest with
    | nil => simpa using hfirst
    | cons =>
      rw [List.intercalate_cons_cons, List.intercalate_cons_cons, List.append_assoc,
        List.append_assoc]
      exact hfirst.join rfl ih

theorem Writes.tokens? {s : String} (h : Writes s.toList ts) : Json.tokens? s = some ts := by
  obtain ⟨p, hp, hstands⟩ := h []
  rw [hstands.tokens? hp]
  simp

end

/-! ## Tokens and their value -/

/-- Tokens denote a value if it is found at their front, whatever is behind them. -/
def Denotes (ts : List Token) (j : Json) : Prop :=
  ∀ fuel rest, 2 * ts.length ≤ fuel → valueOf? fuel (ts ++ rest) = some (j, rest)

theorem denotes_plain (j : Json) : Denotes [.plain j] j := fun fuel _ _ => by
  cases fuel <;> rfl

/-- A member is denoted by its name, a colon and what denotes its value. -/
def DenotesMember (ts : List Token) (m : String × Json) : Prop :=
  ∃ us, ts = .plain (.text m.1) :: .colon :: us ∧ Denotes us m.2

/-- No value is denoted by nothing or from a closing bracket on. -/
theorem Denotes.exists_cons {ts : List Token} {j : Json} (h : Denotes ts j) :
    ∃ t us, ts = t :: us ∧ t ≠ .closeArray := by
  cases ts with
  | nil =>
    have hnone := h 0 [] (Nat.le_refl _)
    cases hnone
  | cons t us =>
    refine ⟨t, us, rfl, ?_⟩
    rintro rfl
    have hnone := h (2 * (us.length + 1)) [] (Nat.le_refl _)
    cases hnone

/-- Items with a comma between each two, up to the end of the array. -/
theorem itemsOf?_separated {tss : List (List Token)} {items : List Json}
    (h : List.Forall₂ Denotes tss items) (hne : items ≠ []) (read : List Json) (fuel : Nat)
    (rest : List Token) (hfuel : 2 * ([.comma].intercalate tss).length < fuel) :
    itemsOf? fuel read ([.comma].intercalate tss ++ .closeArray :: rest) =
      some (array (read.reverse ++ items), rest) := by
  -- By induction on the items that are left; those in front of them have been read.
  induction h generalizing read fuel with
  | nil => exact absurd rfl hne
  | @cons ts j tss items hfirst hrest ih =>
    obtain ⟨fuel, rfl⟩ := Nat.exists_eq_add_one_of_ne_zero (n := fuel) (by omega)
    cases hrest with
    | nil =>
      rw [List.intercalate_singleton] at hfuel ⊢
      rw [itemsOf?, hfirst fuel _ (by omega)]
      simp
    | cons =>
      rw [List.intercalate_cons_cons] at hfuel ⊢
      simp only [List.length_append, List.length_singleton] at hfuel
      rw [List.append_assoc, List.append_assoc, itemsOf?, hfirst fuel _ (by omega)]
      refine (ih (by simp) (j :: read) fuel (by omega)).trans ?_
      simp

theorem denotes_array {tss : List (List Token)} {items : List Json}
    (h : List.Forall₂ Denotes tss items) :
    Denotes (.openArray :: ([.comma].intercalate tss ++ [.closeArray])) (array items) := by
  intro fuel rest hfuel
  obtain ⟨fuel, rfl⟩ := Nat.exists_eq_add_one_of_ne_zero (n := fuel) (by simp at hfuel; omega)
  simp only [List.length_cons, List.length_append, List.length_nil] at hfuel
  rw [List.cons_append, List.append_assoc]
  cases h with
  | nil => rfl
  | @cons ts j tss items hfirst hrest =>
    -- Only a bracket that closes at once makes an empty array, and no item starts with one.
    have hitems := itemsOf?_separated (.cons hfirst hrest) (by simp) [] fuel rest (by omega)
    obtain ⟨t, us, rfl, ht⟩ := hfirst.exists_cons
    rw [List.intercalate_cons_cons_left] at hitems ⊢
    rw [valueOf?]
    · exact hitems
    · rintro after heq
      exact ht (List.cons.inj heq).1

/-- Members with a comma between each two, up to the end of the object. -/
theorem membersOf?_separated {tss : List (List Token)} {members : List (String × Json)}
    (h : List.Forall₂ DenotesMember tss members) (hne : members ≠ [])
    (read : List (String × Json)) (fuel : Nat) (rest : List Token)
    (hfuel : 2 * ([.comma].intercalate tss).length < fuel) :
    membersOf? fuel read ([.comma].intercalate tss ++ .closeObject :: rest) =
      some (object (membersOf (members.reverse ++ read)), rest) := by
  induction h generalizing read fuel with
  | nil => exact absurd rfl hne
  | @cons ts m tss members hfirst hrest ih =>
    obtain ⟨us, rfl, hvalue⟩ := hfirst
    obtain ⟨fuel, rfl⟩ := Nat.exists_eq_add_one_of_ne_zero (n := fuel) (by omega)
    cases hrest with
    | nil =>
      rw [List.intercalate_singleton] at hfuel ⊢
      simp only [List.length_cons] at hfuel
      rw [List.cons_append, List.cons_append, membersOf?, hvalue fuel _ (by omega)]
      simp
    | cons =>
      rw [List.intercalate_cons_cons] at hfuel ⊢
      simp only [List.length_append, List.length_cons, List.length_nil] at hfuel
      rw [List.append_assoc, List.append_assoc, List.cons_append, List.cons_append, membersOf?,
        hvalue fuel _ (by omega)]
      refine (ih (by simp) (m :: read) fuel (by omega)).trans ?_
      simp

theorem eraseDupsBy_of_nodup {members : List (String × Json)}
    (h : (members.map Prod.fst).Nodup) :
    members.eraseDupsBy (fun a b => a.1 = b.1) = members := by
  induction members with
  | nil => rfl
  | cons m rest ih =>
    rw [List.map_cons, List.nodup_cons] at h
    have hkeep : rest.filter (fun b => decide (decide (b.1 = m.1) = false)) = rest :=
      List.filter_eq_self.2 fun b hb => by
        have hne : b.1 ≠ m.1 := fun heq => h.1 (heq ▸ List.mem_map_of_mem hb)
        simp [hne]
    rw [List.eraseDupsBy_cons, hkeep, ih h.2]

/-- Of members with different names all count. -/
theorem membersOf_reverse {members : List (String × Json)} (h : (members.map Prod.fst).Nodup) :
    membersOf members.reverse = members := by
  have hreverse : (members.reverse.map Prod.fst).Nodup := by
    rwa [List.map_reverse, List.nodup_reverse]
  rw [membersOf, eraseDupsBy_of_nodup hreverse, List.reverse_reverse]

theorem denotes_object {tss : List (List Token)} {members : List (String × Json)}
    (h : List.Forall₂ DenotesMember tss members) (hd : (members.map Prod.fst).Nodup) :
    Denotes (.openObject :: ([.comma].intercalate tss ++ [.closeObject])) (object members) := by
  intro fuel rest hfuel
  obtain ⟨fuel, rfl⟩ := Nat.exists_eq_add_one_of_ne_zero (n := fuel) (by simp at hfuel; omega)
  simp only [List.length_cons, List.length_append, List.length_nil] at hfuel
  rw [List.cons_append, List.append_assoc]
  cases h with
  | nil => rfl
  | @cons ts m tss members hfirst hrest =>
    have hmembers := membersOf?_separated (.cons hfirst hrest) (by simp) [] fuel rest (by omega)
    rw [List.append_nil, membersOf_reverse hd] at hmembers
    obtain ⟨us, rfl, -⟩ := hfirst
    rw [List.intercalate_cons_cons_left] at hmembers ⊢
    rw [valueOf?]
    · exact hmembers
    · rintro after heq
      cases heq

/-! ## Values -/

mutual

/-- Every object in the value names its members once. -/
def Distinct : Json → Prop
  | array items => DistinctItems items
  | object members => (members.map Prod.fst).Nodup ∧ DistinctMembers members
  | _ => True

/-- Every object in the items does. -/
def DistinctItems : List Json → Prop
  | [] => True
  | j :: rest => j.Distinct ∧ DistinctItems rest

/-- Every object in the members does. -/
def DistinctMembers : List (String × Json) → Prop
  | [] => True
  | m :: rest => m.2.Distinct ∧ DistinctMembers rest

end

theorem distinctItems_iff {items : List Json} : DistinctItems items ↔ ∀ j ∈ items, j.Distinct := by
  induction items with
  | nil => simp [DistinctItems]
  | cons j rest ih => simp [DistinctItems, ih]

theorem distinctMembers_iff {members : List (String × Json)} :
    DistinctMembers members ↔ ∀ m ∈ members, m.2.Distinct := by
  induction members with
  | nil => simp [DistinctMembers]
  | cons m rest ih => simp [DistinctMembers, ih]

/-- What is related by way of something in between is so item by item. -/
theorem exists_between {α β γ : Type} {R : α → β → Prop} {S : β → γ → Prop} {l : List α}
    {n : List γ} (h : List.Forall₂ (fun a c => ∃ b, R a b ∧ S b c) l n) :
    ∃ m, List.Forall₂ R l m ∧ List.Forall₂ S m n := by
  induction h with
  | nil => exact ⟨[], .nil, .nil⟩
  | cons hfirst _ ih =>
    obtain ⟨b, hb, hb'⟩ := hfirst
    obtain ⟨m, hm, hm'⟩ := ih
    exact ⟨b :: m, .cons hb hm, .cons hb' hm'⟩

/-- Characters stand for a value if they are written for tokens that denote it. -/
def Represents (cs : List Char) (j : Json) : Prop := ∃ ts, Writes cs ts ∧ Denotes ts j

/-- Characters stand for a member. -/
def RepresentsMember (cs : List Char) (m : String × Json) : Prop :=
  ∃ ts, Writes cs ts ∧ DenotesMember ts m

theorem represents_plain {cs : List Char} {j : Json} (h : Writes cs [.plain j]) : Represents cs j :=
  ⟨_, h, denotes_plain j⟩

/-- A word stands for a value if it is the token of the value. -/
theorem represents_word {cs : List Char} {j : Json} (hcs : ∀ c ∈ cs, endsWord c = false)
    (ht : wordToken? cs = some (.plain j)) : Represents cs j :=
  represents_plain fun _ => stands_of_word hcs ht

theorem represents_null : Represents ['n', 'u', 'l', 'l'] null :=
  represents_word (by simp [endsWord, isBlank, mark?]) rfl

theorem represents_true : Represents ['t', 'r', 'u', 'e'] (bool true) :=
  represents_word (by simp [endsWord, isBlank, mark?]) rfl

theorem represents_false : Represents ['f', 'a', 'l', 's', 'e'] (bool false) :=
  represents_word (by simp [endsWord, isBlank, mark?]) rfl

theorem represents_array {css : List (List Char)} {items : List Json}
    (h : List.Forall₂ Represents css items) :
    Represents ('[' :: ([','].intercalate css ++ [']'])) (array items) := by
  obtain ⟨tss, hwrites, hdenotes⟩ := exists_between h
  exact ⟨_, (Writes.separated hwrites).enclosed rfl rfl, denotes_array hdenotes⟩

theorem represents_object {css : List (List Char)} {members : List (String × Json)}
    (h : List.Forall₂ RepresentsMember css members) (hd : (members.map Prod.fst).Nodup) :
    Represents ('\x7b' :: ([','].intercalate css ++ ['\x7d'])) (object members) := by
  obtain ⟨tss, hwrites, hdenotes⟩ := exists_between h
  exact ⟨_, (Writes.separated hwrites).enclosed rfl rfl, denotes_object hdenotes hd⟩

theorem writes_escaped (s : String) : Writes (escaped s).toList [.plain (.text s)] :=
  fun _ => ⟨_, scans_escaped s, stands_between⟩

theorem representsMember {cs : List Char} {j : Json} (name : String) (h : Represents cs j) :
    RepresentsMember ((escaped name).toList ++ ':' :: cs) (name, j) := by
  obtain ⟨ts, hwrites, hdenotes⟩ := h
  exact ⟨_, (writes_escaped name).join rfl hwrites, ts, rfl, hdenotes⟩

mutual

/-- The compact text of a value stands for it. -/
theorem represents_compact : ∀ j : Json, j.Distinct → Represents j.compact.toList j
  | null, _ => represents_null
  | bool true, _ => represents_true
  | bool false, _ => represents_false
  | number m n, _ =>
    represents_word endsWord_of_mem_decimal (wordToken?_of_number (number?_decimal m n))
  | text s, _ => represents_plain (writes_escaped s)
  | array items, h => by
    have hitems := represents_array (represents_items items h)
    rw [compact, String.toList_append, String.toList_append, String.toList_intercalate]
    exact hitems
  | object members, h => by
    have hmembers := represents_object (represents_members members h.2) h.1
    rw [compact, String.toList_append, String.toList_append, String.toList_intercalate]
    exact hmembers

theorem represents_items : ∀ items : List Json, DistinctItems items →
    List.Forall₂ Represents ((compactItems items).map String.toList) items
  | [], _ => .nil
  | j :: rest, h => .cons (represents_compact j h.1) (represents_items rest h.2)

theorem represents_members : ∀ members : List (String × Json), DistinctMembers members →
    List.Forall₂ RepresentsMember ((compactMembers members).map String.toList) members
  | [], _ => .nil
  | (name, j) :: rest, h => by
    have hfirst := representsMember name (represents_compact j h.1)
    rw [compactMembers, List.map_cons, String.toList_append, String.toList_append,
      List.append_assoc]
    exact .cons hfirst (represents_members rest h.2)

end

/-- A value whose objects name their members once is read back from its compact text. -/
theorem parse?_compact {j : Json} (h : j.Distinct) : parse? j.compact = some j := by
  obtain ⟨ts, hwrites, hdenotes⟩ := represents_compact j h
  have hvalue := hdenotes (2 * ts.length) [] (Nat.le_refl _)
  rw [List.append_nil] at hvalue
  rw [parse?, hwrites.tokens?, Option.bind_some, ofTokens?, hvalue]

end Doomtown.Json
