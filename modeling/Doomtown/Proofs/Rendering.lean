import Doomtown.Message

/-!
# Templates are scanned once

A template is read from left to right. Where its first part leaves no brace open, the second part
is read as it would be alone, and what stands for a slot is not read at all. A template none of
whose keys names an argument comes out as it was written.
-/

namespace Doomtown

namespace Message

variable {b : Board} {args : List MessageArg} {named : List (String × MessageArg)}

/-! ## Where a scan stands -/

/-- The characters that a scan has read and not yet made a part of. -/
def Scan.pending : Scan → List Char
  | none => []
  | some key => '\x7b' :: key.reverse

/-- The key of an open slot holds no closing brace: the first one would have closed the slot. -/
def Scan.Open (s : Scan) : Prop :=
  ∀ key ∈ s, '\x7d' ∉ key

/-- Text that leaves no brace open behind it. -/
def Closed (cs : List Char) : Prop :=
  ∀ tail, .rest tail ∉ pieces none cs

/-- The text has a slot with this key: behind what leaves no brace open stand an opening brace,
the key, and the first closing brace after it. -/
def HasSlot (cs key : List Char) : Prop :=
  ∃ before behind, cs = before ++ '\x7b' :: key ++ '\x7d' :: behind ∧ Closed before ∧ '\x7d' ∉ key

/-- A slot takes in all that comes before the closing brace. -/
theorem pieces_some_append {key : List Char} (h : '\x7d' ∉ key) (read cs : List Char) :
    pieces (some read) (key ++ cs) = pieces (some (key.reverse ++ read)) cs := by
  induction key generalizing read with
  | nil => rfl
  | cons c key ih =>
    obtain ⟨hc, hkey⟩ : '\x7d' ≠ c ∧ '\x7d' ∉ key := by simpa using h
    have step : pieces (some read) (c :: key ++ cs) = pieces (some (c :: read)) (key ++ cs) := by
      simp [pieces, Ne.symm hc]
    rw [step, ih hkey]
    simp

/-- An opening brace, a key and a closing brace are one slot. -/
theorem pieces_slot {key : List Char} (h : '\x7d' ∉ key) (cs : List Char) :
    pieces none ('\x7b' :: key ++ '\x7d' :: cs) = .slot key :: pieces none cs := by
  have step : pieces none ('\x7b' :: key ++ '\x7d' :: cs) =
      pieces (some []) (key ++ '\x7d' :: cs) := by simp [pieces]
  rw [step, pieces_some_append h]
  simp [pieces]

/-- Behind text that leaves no brace open a scan begins anew. -/
theorem pieces_append {s : Scan} {cs : List Char} (h : ∀ tail, .rest tail ∉ pieces s cs)
    (ds : List Char) : pieces s (cs ++ ds) = pieces s cs ++ pieces none ds := by
  -- The text cannot end within a slot (`case2`), for that is what is left over.
  induction s, cs using pieces.induct with
  | case1 => rfl
  | case2 key => exact absurd List.mem_cons_self (h key.reverse)
  | case3 cs ih =>
    simp only [pieces, if_true, List.cons_append] at h ⊢
    exact ih h
  | case4 c cs hc ih =>
    simp only [pieces, if_neg hc, List.cons_append] at h ⊢
    rw [ih fun tail ht => h tail (List.mem_cons_of_mem _ ht)]
  | case5 key cs ih =>
    simp only [pieces, if_true, List.cons_append] at h ⊢
    rw [ih fun tail ht => h tail (List.mem_cons_of_mem _ ht)]
  | case6 key c cs hc ih =>
    simp only [pieces, if_neg hc, List.cons_append] at h ⊢
    exact ih h

theorem closed_nil : Closed [] := fun _ h => nomatch h

theorem closed_slot {key : List Char} (h : '\x7d' ∉ key) :
    Closed ('\x7b' :: key ++ ['\x7d']) := by
  intro tail ht
  rw [pieces_slot h] at ht
  simp [pieces] at ht

/-- Texts that leave no brace open may be put one behind the other. -/
theorem Closed.append {cs ds : List Char} (hc : Closed cs) (hd : Closed ds) :
    Closed (cs ++ ds) := by
  intro tail ht
  rw [pieces_append hc, List.mem_append] at ht
  exact ht.elim (hc tail) (hd tail)

/-! ## The slots of a template -/

/-- Each slot that a scan comes to stands in what is pending and what is still to be read. -/
theorem hasSlot_of_mem {s : Scan} {cs key : List Char} (hs : s.Open)
    (h : .slot key ∈ pieces s cs) : HasSlot (s.pending ++ cs) key := by
  -- The induction is on the scan: `case4` reads a character outside of slots, `case5` closes a slot,
  -- and `case6` adds a character to its key, which keeps closing braces out of it.
  induction s, cs using pieces.induct with
  | case1 => exact nomatch h
  | case2 read => simp [pieces] at h
  | case3 cs ih =>
    simp only [pieces, if_true] at h
    exact ih (by rintro _ ⟨⟩; exact List.not_mem_nil) h
  | case4 c cs hc ih =>
    simp only [pieces, if_neg hc, List.mem_cons, reduceCtorEq, false_or] at h
    obtain ⟨before, behind, hcs, hbefore, hkey⟩ := ih hs h
    refine ⟨c :: before, behind, congrArg (c :: ·) hcs, fun tail ht => ?_, hkey⟩
    simp only [pieces, if_neg hc, List.mem_cons, reduceCtorEq, false_or] at ht
    exact hbefore tail ht
  | case5 read cs ih =>
    have hread : '\x7d' ∉ read.reverse := by simpa using hs read rfl
    simp only [pieces, if_true, List.mem_cons, Piece.slot.injEq] at h
    rcases h with rfl | h
    · exact ⟨[], cs, rfl, closed_nil, hread⟩
    · obtain ⟨before, behind, hcs, hbefore, hkey⟩ := ih (by rintro _ ⟨⟩) h
      refine ⟨('\x7b' :: read.reverse ++ ['\x7d']) ++ before, behind, ?_,
        (closed_slot hread).append hbefore, hkey⟩
      replace hcs : cs = before ++ '\x7b' :: key ++ '\x7d' :: behind := hcs
      simp [Scan.pending, hcs]
  | case6 read c cs hc ih =>
    simp only [pieces, if_neg hc] at h
    have hopen : Scan.Open (some (c :: read)) := by
      rintro _ ⟨⟩
      exact List.not_mem_cons_of_ne_of_not_mem (Ne.symm hc) (hs read rfl)
    simpa [Scan.pending] using ih hopen h

/-- The slots that the scan of a template makes are those that stand in it. -/
theorem slot_mem_iff {cs key : List Char} : .slot key ∈ pieces none cs ↔ HasSlot cs key := by
  constructor
  · exact fun h => hasSlot_of_mem (s := none) (by rintro _ ⟨⟩) h
  · rintro ⟨before, behind, rfl, hbefore, hkey⟩
    rw [List.append_assoc, pieces_append hbefore, pieces_slot hkey]
    exact List.mem_append_right _ List.mem_cons_self

/-! ## What is rendered -/

/-- Parts none of whose keys names an argument are shown as they were read. -/
theorem flatMap_shown_of_unresolved {s : Scan} {cs : List Char}
    (h : ∀ key, .slot key ∈ pieces s cs → argument? args named key = none) :
    (pieces s cs).flatMap (·.shown b args named) = s.pending ++ cs := by
  induction s, cs using pieces.induct with
  | case1 => rfl
  | case2 key => simp [pieces, Piece.shown, Scan.pending]
  | case3 cs ih =>
    simp only [pieces, if_true] at h ⊢
    exact ih h
  | case4 c cs hc ih =>
    simp only [pieces, if_neg hc] at h ⊢
    rw [List.flatMap_cons, ih fun key hk => h key (List.mem_cons_of_mem _ hk)]
    rfl
  | case5 read cs ih =>
    simp only [pieces, if_true] at h ⊢
    rw [List.flatMap_cons, ih fun key hk => h key (List.mem_cons_of_mem _ hk), Piece.shown,
      h read.reverse List.mem_cons_self]
    simp [Scan.pending]
  | case6 read c cs hc ih =>
    simp only [pieces, if_neg hc] at h ⊢
    rw [ih h]
    simp [Scan.pending]

/-- Behind a template that leaves no brace open the next one is rendered as it would be alone. -/
theorem render_append {first : String} (h : Closed first.toList) (second : String) :
    render b (first ++ second) args named =
      render b first args named ++ render b second args named := by
  simp only [render, String.toList_append, pieces_append h, List.flatMap_append,
    String.ofList_append]

/-- A slot whose key names an argument is rendered as what the argument says. -/
theorem render_slot {key : String} {arg : MessageArg} (hkey : '\x7d' ∉ key.toList)
    (harg : argument? args named key.toList = some arg) :
    render b ("\x7b" ++ key ++ "\x7d") args named = arg.shown b := by
  have text : ("\x7b" ++ key ++ "\x7d").toList = '\x7b' :: key.toList ++ ['\x7d'] := by
    simp
  rw [render, text, pieces_slot hkey]
  simp [pieces, Piece.shown, harg]

/-- A template none of whose keys names an argument is rendered as it was written. -/
theorem render_eq_self {template : String}
    (h : ∀ key, HasSlot template.toList key → argument? args named key = none) :
    render b template args named = template := by
  rw [render, flatMap_shown_of_unresolved fun key hk => h key (slot_mem_iff.mp hk)]
  exact String.ofList_toList

/-- Rendering is one pass from left to right. Behind a template that leaves no brace open, another
is rendered as it would be alone. A slot between two templates whose key names an argument becomes
what the argument says, whatever braces that holds, and what stands behind the slot is rendered as
it would be alone. A template none of whose keys names an argument is rendered as it was written. -/
theorem render_once (b : Board) (args : List MessageArg) (named : List (String × MessageArg)) :
    (∀ first second : String, Closed first.toList →
      render b (first ++ second) args named =
        render b first args named ++ render b second args named) ∧
    (∀ (first key second : String) (arg : MessageArg), Closed first.toList →
      '\x7d' ∉ key.toList → argument? args named key.toList = some arg →
      render b (first ++ ("\x7b" ++ key ++ "\x7d") ++ second) args named =
        render b first args named ++ arg.shown b ++ render b second args named) ∧
    ∀ template : String,
      (∀ key, HasSlot template.toList key → argument? args named key = none) →
      render b template args named = template := by
  refine ⟨fun first second h => render_append h second, ?_, fun template => render_eq_self⟩
  intro first key second arg hfirst hkey harg
  have hslot : Closed ("\x7b" ++ key ++ "\x7d").toList := by
    simpa using closed_slot hkey
  have hboth : Closed (first ++ ("\x7b" ++ key ++ "\x7d")).toList := by
    rw [String.toList_append]
    exact hfirst.append hslot
  rw [render_append hboth, render_append hfirst, render_slot hkey harg]

/-- The argument in the middle is itself a slot and is put in as it is; a name that is not given and
a brace that is never closed stay. -/
theorem render_once_braces :
    render (.twoPlayer "Abram" "Jonah" 0) "\x7bwho\x7d: \x7b+00\x7d \x7b\x7bto\x7d \x7b"
      [.text "\x7bwho\x7d"] [("who", .player ⟨0⟩)] = "Abram: \x7bwho\x7d \x7b\x7bto\x7d \x7b" := by
  obtain ⟨-, hslot, hself⟩ :=
    render_once (.twoPlayer "Abram" "Jonah" 0) [.text "\x7bwho\x7d"] [("who", .player ⟨0⟩)]
  have hsecond := hself " \x7b\x7bto\x7d \x7b" fun key hkey => by
    have h : Piece.slot key ∈ [.char ' ', .slot ['\x7b', 't', 'o'], .char ' ', .rest []] :=
      slot_mem_iff.mpr hkey
    obtain rfl : key = ['\x7b', 't', 'o'] := by simpa using h
    decide
  have hfirst : Closed "\x7bwho\x7d: ".toList := by
    intro tail h
    have h : Piece.rest tail ∈ [.slot ['w', 'h', 'o'], .char ':', .char ' '] := h
    simp at h
  have h := hslot "\x7bwho\x7d: " "+00" " \x7b\x7bto\x7d \x7b" (.text "\x7bwho\x7d") hfirst
    (by decide) (by decide)
  rw [hsecond] at h
  exact h.trans (by decide +kernel)

end Message

end Doomtown
