import Mathlib.Data.List.TakeDrop
import Doomtown.Json.Token

/-!
# The tokens of written words and texts

Numbers and texts are read back from the characters that they are written in. A number is a word:
its characters are collected until one comes that ends the word, and the word's token is the number
(`number?_decimal`). A text is read character by character, each from its escaped form
(`scans_escaped`).

`Scans` follows the pass over characters from one point to another. Behind a word the token is still
to be taken in; `Stands` says which tokens a pass stands behind whether or not it has been, so that
what comes next is read alike (`Stands.next`).
-/

namespace Doomtown.Json

/-! ## Digits -/

theorem digits?_eq {cs : List Char} (h : ∀ c ∈ cs, c.isDigit) (n : Nat) :
    Text.digits? n cs = some (Nat.ofDigitChars 10 cs n) := by
  induction cs generalizing n with
  | nil => rfl
  | cons c cs ih =>
    obtain ⟨hc, hcs⟩ := List.forall_mem_cons.1 h
    rw [Text.digits?, if_pos hc, ih hcs, Nat.ofDigitChars_cons]

theorem isDigit_of_mem_toDigits {n : Nat} : ∀ c ∈ Nat.toDigits 10 n, c.isDigit := fun _ hc =>
  Nat.isDigit_of_mem_toDigits (by decide) (by decide) hc

theorem exists_toDigits_cons (n : Nat) : ∃ c cs, Nat.toDigits 10 n = c :: cs :=
  List.exists_cons_of_ne_nil Nat.toDigits_ne_nil

/-- The digits of a number do not start with a zero, unless it is the only one. -/
theorem head?_toDigits {n : Nat} (hn : 0 < n) : (Nat.toDigits 10 n).head? ≠ some '0' := by
  induction n using Nat.strongRecOn with
  | ind n ih =>
    rw [Nat.toDigits_eq_if (by decide)]
    split
    · rw [List.head?_cons, Ne, Option.some.injEq, Nat.digitChar_eq_zero]
      omega
    · have hfront := ih (n / 10) (by omega) (by omega)
      obtain ⟨c, cs, hcs⟩ := exists_toDigits_cons (n / 10)
      rwa [hcs] at hfront ⊢

/-- All digits at the front are found. -/
theorem someDigits?_append {cs r : List Char} (hne : cs ≠ []) (hcs : ∀ c ∈ cs, c.isDigit)
    (hr : ∀ c ∈ r.head?, c.isDigit = false) : someDigits? (cs ++ r) = some (cs, r) := by
  have hspan : (cs ++ r).span Char.isDigit = (cs, r) := by
    rw [List.span_eq_takeWhile_dropWhile, List.takeWhile_append_of_pos hcs,
      List.dropWhile_append_of_pos hcs]
    cases r with
    | nil => simp
    | cons c r =>
      have hc := hr c rfl
      simp [hc]
  rw [someDigits?, hspan]
  cases cs with
  | nil => exact absurd rfl hne
  | cons => rfl

theorem wholePart?_append {n : Nat} {r : List Char} (hr : ∀ c ∈ r.head?, c.isDigit = false) :
    wholePart? (Nat.toDigits 10 n ++ r) = some (Nat.toDigits 10 n, r) := by
  rw [wholePart?, someDigits?_append Nat.toDigits_ne_nil isDigit_of_mem_toDigits hr]
  obtain rfl | hn := Nat.eq_zero_or_pos n
  · rfl
  · simp [head?_toDigits hn]

/-! ## Numbers -/

/-- The digits behind the point of a number with `n` places. -/
def fractionDigits (m n : Nat) : List Char :=
  let digits := Nat.toDigits 10 (m % Nat.pow 10 n)
  List.replicate (n - digits.length) '0' ++ digits

theorem length_fractionDigits {m n : Nat} (hn : 0 < n) : (fractionDigits m n).length = n := by
  have hle : (Nat.toDigits 10 (m % Nat.pow 10 n)).length ≤ n :=
    (Nat.length_toDigits_le_iff (by decide) hn).2 (Nat.mod_lt _ (Nat.pow_pos (by decide)))
  rw [fractionDigits, List.length_append, List.length_replicate]
  omega

theorem isDigit_of_mem_fractionDigits {m n : Nat} : ∀ c ∈ fractionDigits m n, c.isDigit := by
  intro c hc
  obtain hc | hc := List.mem_append.1 hc
  · rw [List.eq_of_mem_replicate hc]; rfl
  · exact isDigit_of_mem_toDigits c hc

/-- The digits in front of the point and behind it together write the number without it. -/
theorem ofDigitChars_decimal {m n : Nat} (hn : 0 < n) :
    Nat.ofDigitChars 10 (Nat.toDigits 10 (m / Nat.pow 10 n) ++ fractionDigits m n) 0 = m := by
  rw [Nat.ofDigitChars_append, Nat.ofDigitChars_ten_toDigits,
    Nat.ofDigitChars_eq_ofDigitChars_zero, length_fractionDigits hn, fractionDigits,
    Nat.ofDigitChars_append, Nat.ofDigitChars_replicate_zero, Nat.mul_zero,
    Nat.ofDigitChars_ten_toDigits]
  exact Nat.div_add_mod m (Nat.pow 10 n)

/-- The sign of a number, if it has one. -/
def signOf (m : Int) : List Char := if m < 0 then ['-'] else []

theorem toList_decimal_whole (m : Int) :
    (decimal m 0).toList = signOf m ++ Nat.toDigits 10 m.natAbs := by
  simp only [decimal, signOf, if_true, String.toList_append, Nat.toString_eq_repr, Nat.toList_repr]
  split <;> rfl

theorem toList_pushn (c : Char) (k : Nat) : ("".pushn c k).toList = List.replicate k c := by
  rw [String.pushn_eq_repeat_push]
  induction k with
  | zero => rfl
  | succ k ih => rw [Nat.repeat, String.toList_push, ih, List.replicate_succ']

theorem toList_decimal_places (m : Int) {n : Nat} (hn : 0 < n) :
    (decimal m n).toList = signOf m ++
      (Nat.toDigits 10 (m.natAbs / Nat.pow 10 n) ++ '.' :: fractionDigits m.natAbs n) := by
  have hn' : n ≠ 0 := by omega
  have hsign : (if m < 0 then "-" else "").toList = signOf m := by rw [signOf]; split <;> rfl
  simp only [decimal, if_neg hn', String.toList_append, toList_pushn, hsign, Nat.toString_eq_repr,
    Nat.toList_repr, ← String.length_toList, fractionDigits, List.append_assoc]
  rfl

/-- Digits alone write a whole number, but for a zero behind a minus. -/
theorem unsigned?_whole {sign : Int} {n : Nat} (h : sign = 1 ∨ sign * n ≠ 0) :
    unsigned? sign (Nat.toDigits 10 n) = some (number (sign * n) 0) := by
  have hwhole := wholePart?_append (n := n) (r := []) (by simp)
  rw [List.append_nil] at hwhole
  have hdigits := digits?_eq (isDigit_of_mem_toDigits (n := n)) 0
  rw [Nat.ofDigitChars_ten_toDigits] at hdigits
  simp only [unsigned?, hwhole, fraction?, List.append_nil, hdigits, exponent?, Option.bind_eq_bind,
    Option.bind_some, List.isEmpty_nil, Bool.true_and, Bool.or_eq_true, decide_eq_true_eq, if_pos h]
  rfl

/-- Digits with a point among them write a number with places. -/
theorem unsigned?_places (sign : Int) (m : Nat) {n : Nat} (hn : 0 < n) :
    unsigned? sign (Nat.toDigits 10 (m / Nat.pow 10 n) ++ '.' :: fractionDigits m n) =
      some (number (sign * m) n) := by
  have hne : fractionDigits m n ≠ [] :=
    List.ne_nil_of_length_pos (by rwa [length_fractionDigits hn])
  have hwhole :
      wholePart? (Nat.toDigits 10 (m / Nat.pow 10 n) ++ '.' :: fractionDigits m n) = some _ :=
    wholePart?_append (by simp)
  have hfraction := someDigits?_append hne isDigit_of_mem_fractionDigits (r := []) (by simp)
  rw [List.append_nil] at hfraction
  have hdigits :
      Text.digits? 0 (Nat.toDigits 10 (m / Nat.pow 10 n) ++ fractionDigits m n) = some m := by
    rw [digits?_eq (List.forall_mem_append.2
      ⟨isDigit_of_mem_toDigits, isDigit_of_mem_fractionDigits⟩), ofDigitChars_decimal hn]
  have hplaces : withPlaces (sign * m) (fractionDigits m n).length = number (sign * m) n := by
    rw [length_fractionDigits hn, withPlaces, if_pos (by omega), Int.toNat_natCast]
  have hsome : (fractionDigits m n).isEmpty = false := List.isEmpty_eq_false_iff.2 hne
  simp only [unsigned?, hwhole, fraction?, hfraction, hdigits, exponent?, Option.bind_eq_bind,
    Option.bind_some, hsome, Bool.false_and, Bool.false_eq_true, if_false, hplaces]

theorem number?_of_digit {c : Char} {cs : List Char} (hc : c.isDigit) :
    number? (c :: cs) = unsigned? 1 (c :: cs) := by
  rw [number?]
  rintro rest heq
  cases heq
  exact absurd hc (by decide)

/-- A number is read with its sign if what is behind the sign is. -/
theorem number?_signOf {m : Int} {n q : Nat} {cs : List Char}
    (h : ∀ sign : Int, sign = 1 ∨ sign * m.natAbs ≠ 0 →
      unsigned? sign (Nat.toDigits 10 q ++ cs) = some (number (sign * m.natAbs) n)) :
    number? (signOf m ++ (Nat.toDigits 10 q ++ cs)) = some (number m n) := by
  rw [signOf]
  split
  · rename_i hm
    -- Behind a minus there is no zero, which would be read as one with a place.
    have hneg : (-1 : Int) * m.natAbs = m := by omega
    rw [List.singleton_append, number?, h (-1) (by omega), hneg]
  · rename_i hm
    have hpos : (1 : Int) * m.natAbs = m := by omega
    obtain ⟨c, rest, hcs⟩ := exists_toDigits_cons q
    have hc : c.isDigit := isDigit_of_mem_toDigits (n := q) c (by rw [hcs]; simp)
    rw [List.nil_append, hcs, List.cons_append, number?_of_digit hc, ← List.cons_append, ← hcs,
      h 1 (.inl rfl), hpos]

/-- A number is read back as it was written. -/
theorem number?_decimal (m : Int) (n : Nat) : number? (decimal m n).toList = some (number m n) := by
  obtain rfl | hn := Nat.eq_zero_or_pos n
  · rw [toList_decimal_whole, ← List.append_nil (Nat.toDigits ..)]
    refine number?_signOf fun _ h => ?_
    rw [List.append_nil]
    exact unsigned?_whole h
  · rw [toList_decimal_places m hn]
    exact number?_signOf fun _ _ => unsigned?_places _ _ hn

/-! ## Words -/

theorem wordToken?_of_number {cs : List Char} {j : Json} (h : number? cs = some j) :
    wordToken? cs = some (.plain j) := by
  have hne : ∀ word : List Char, number? word = none → cs ≠ word := by
    rintro word hword rfl
    rw [hword] at h
    cases h
  rw [wordToken?, if_neg (hne _ rfl), if_neg (hne _ rfl), if_neg (hne _ rfl), h]
  rfl

/-- A character that ends a word. -/
def endsWord (c : Char) : Bool := isBlank c || c = '"' || (mark? c).isSome

theorem endsWord_of_isDigit {c : Char} (hc : c.isDigit) : endsWord c = false := by
  have hne : ∀ d : Char, d.isDigit = false → c ≠ d := by
    rintro d hd rfl
    rw [hc] at hd
    cases hd
  simp [endsWord, isBlank, mark?, hne]

theorem endsWord_of_mem_decimal {m : Int} {n : Nat} :
    ∀ c ∈ (decimal m n).toList, endsWord c = false := by
  have hsign : ∀ c ∈ signOf m, endsWord c = false := by
    rw [signOf]
    split <;> simp [endsWord, isBlank, mark?]
  have hdigits {q : Nat} : ∀ c ∈ Nat.toDigits 10 q, endsWord c = false := fun c hc =>
    endsWord_of_isDigit (isDigit_of_mem_toDigits c hc)
  obtain rfl | hn := Nat.eq_zero_or_pos n
  · rw [toList_decimal_whole]
    exact List.forall_mem_append.2 ⟨hsign, hdigits⟩
  · rw [toList_decimal_places m hn]
    refine List.forall_mem_append.2 ⟨hsign, List.forall_mem_append.2 ⟨hdigits, ?_⟩⟩
    refine List.forall_mem_cons.2 ⟨by simp [endsWord, isBlank, mark?], fun c hc => ?_⟩
    exact endsWord_of_isDigit (isDigit_of_mem_fractionDigits c hc)

/-! ## Passes over characters -/

/-- Characters take a pass from one point to another. -/
def Scans (p : List Token × Spot) (cs : List Char) (q : List Token × Spot) : Prop :=
  cs.foldlM nextCharacter? p = some q

section

variable {p q r : List Token × Spot} {tokens : List Token} {t : Token} {c : Char}
variable {cs ds : List Char}

theorem Scans.nil : Scans p [] p := rfl

theorem Scans.append (h : Scans p cs q) (h' : Scans q ds r) : Scans p (cs ++ ds) r := by
  rw [Scans, List.foldlM_append, h]
  exact h'

theorem Scans.cons (h : nextCharacter? p c = some q) (h' : Scans q cs r) : Scans p (c :: cs) r := by
  rw [Scans, List.foldlM_cons, h]
  exact h'

/-- Where a pass stands when it has read tokens, of which the last may be a word that goes on as
long as nothing ends it. -/
def Stands (p : List Token × Spot) (tokens : List Token) : Prop :=
  p = (tokens, .between) ∨
    ∃ read t before, p = (before, .word read) ∧ wordToken? read.reverse = some t ∧
      tokens = t :: before

theorem stands_between : Stands (tokens, .between) tokens := .inl rfl

/-- What ends a word is read as if it came after the word's token. -/
theorem Stands.next (h : Stands p tokens) (hc : endsWord c) :
    nextCharacter? p c = some (afterToken tokens c) := by
  obtain rfl | ⟨read, t, before, rfl, ht, rfl⟩ := h
  · rfl
  · rw [nextCharacter?, ← endsWord, if_pos hc, ht]
    rfl

theorem Stands.mark (h : Stands p tokens) (hc : mark? c = some t) :
    nextCharacter? p c = some (t :: tokens, .between) := by
  -- A mark is neither a blank nor a quote, which would be looked for first.
  have hblank : isBlank c = false := by
    rw [Bool.eq_false_iff]
    intro hb
    simp only [isBlank, Bool.or_eq_true, decide_eq_true_eq] at hb
    obtain ((rfl | rfl) | rfl) | rfl := hb <;> cases hc
  have hquote : c ≠ '"' := by
    rintro rfl
    cases hc
  rw [h.next (by simp [endsWord, hc]), afterToken, hblank, if_neg hquote, hc]
  rfl

/-- At the end of a text all tokens are there. -/
theorem Stands.tokens? {s : String} (h : Stands p tokens) (hs : Scans ([], .between) s.toList p) :
    Json.tokens? s = some tokens.reverse := by
  rw [Json.tokens?, hs]
  obtain rfl | ⟨read, t, before, rfl, ht, rfl⟩ := h
  · rfl
  · simp [ht]

/-! ## Words and texts in a pass -/

theorem scans_word {read : List Char} (hcs : ∀ c ∈ cs, endsWord c = false) :
    Scans (tokens, .word read) cs (tokens, .word (cs.reverse ++ read)) := by
  induction cs generalizing read with
  | nil => exact .nil
  | cons c cs ih =>
    obtain ⟨hc, hcs⟩ := List.forall_mem_cons.1 hcs
    rw [List.reverse_cons, List.append_assoc]
    refine .cons ?_ (ih hcs)
    rw [nextCharacter?, ← endsWord, hc]
    rfl

/-- A word is read as its token once it ends. -/
theorem stands_of_word (hcs : ∀ c ∈ cs, endsWord c = false) (ht : wordToken? cs = some t) :
    ∃ p, Scans (tokens, .between) cs p ∧ Stands p (t :: tokens) := by
  have hne : cs ≠ [] := by
    rintro rfl
    cases ht
  obtain ⟨c, rest, rfl⟩ := List.exists_cons_of_ne_nil hne
  obtain ⟨hc, hrest⟩ := List.forall_mem_cons.1 hcs
  have hread : wordToken? (rest.reverse ++ [c]).reverse = some t := by simpa using ht
  refine ⟨_, .cons ?_ (scans_word hrest), .inr ⟨_, t, tokens, rfl, hread, rfl⟩⟩
  simp only [endsWord, Bool.or_eq_false_iff, decide_eq_false_iff_not, Option.isSome_eq_false_iff,
    Option.isNone_iff_eq_none] at hc
  obtain ⟨⟨hblank, hquote⟩, hmark⟩ := hc
  rw [nextCharacter?, afterToken, hblank, if_neg hquote, hmark]
  rfl

/-- The codes of a text, last first, are those of its characters. -/
theorem charactersOnto?_codes (behind : List Char) :
    charactersOnto? behind (cs.map Char.toNat) = some (cs.reverse ++ behind) := by
  induction cs generalizing behind with
  | nil => rfl
  | cons c cs ih =>
    have hvalid : c.toNat < 0xd800 ∨ 0xdfff < c.toNat := by
      obtain h | h := c.valid
      · exact .inl h
      · exact .inr h.1
    -- Halves of a pair are no characters, so no two codes are taken for one.
    have hlow : ¬(0xd800 ≤ c.toNat ∧ c.toNat < 0xe000) := by omega
    cases cs with
    | nil =>
      rw [List.map_singleton, charactersOnto?, if_neg hlow, Char.ofNat_toNat]
      rfl
    | cons d cs =>
      rw [List.map_cons, List.map_cons, charactersOnto?, if_neg (by omega), if_neg (by omega),
        Char.ofNat_toNat, ← List.map_cons, ih]
      simp

theorem textToken?_codes (s : String) :
    textToken? (s.toList.map Char.toNat).reverse = some (.plain (.text s)) := by
  rw [textToken?, ← List.map_reverse, charactersOnto?_codes]
  simp

theorem hexDigit?_digitChar {d : Nat} (hd : d < 16) : hexDigit? (Nat.digitChar d) = some d :=
  (by decide : ∀ d < 16, hexDigit? (Nat.digitChar d) = some d) d hd

theorem next_digit {read : List Nat} {d missing code : Nat} (hd : d < 16) :
    nextCharacter? (tokens, .code read (missing + 1) code) d.digitChar =
      some (tokens, .code read missing (0x10 * code + d)) := by
  rw [nextCharacter?, hexDigit?_digitChar hd]
  rfl

theorem next_digit_last {read : List Nat} {d code : Nat} (hd : d < 16) :
    nextCharacter? (tokens, .code read 0 code) d.digitChar =
      some (tokens, .text ((0x10 * code + d) :: read)) := by
  rw [nextCharacter?, hexDigit?_digitChar hd]
  rfl

/-- Four hexadecimal digits behind a backslash and a `u` are read as the code that they write. -/
theorem scans_code (read : List Nat) (d₁ d₂ d₃ d₄ : Nat) (h₁ : d₁ < 16) (h₂ : d₂ < 16)
    (h₃ : d₃ < 16) (h₄ : d₄ < 16) :
    Scans (tokens, .text read)
      ['\\', 'u', d₁.digitChar, d₂.digitChar, d₃.digitChar, d₄.digitChar]
      (tokens, .text ((0x10 * (0x10 * (0x10 * (0x10 * 0 + d₁) + d₂) + d₃) + d₄) :: read)) := by
  refine .cons (q := (tokens, .escape read)) rfl (.cons (q := (tokens, .code read 3 0)) rfl ?_)
  exact .cons (next_digit h₁) (.cons (next_digit h₂) (.cons (next_digit h₃)
    (.cons (next_digit_last h₄) .nil)))

/-- An escaped character is read as its code. -/
theorem scans_escapedChar (read : List Nat) :
    Scans (tokens, .text read) (escapedChar c).toList (tokens, .text (c.toNat :: read)) := by
  rw [escapedChar]
  split_ifs with hquote hbackslash hnewline hreturn htab hbackspace hfeed hshort hlong
  · subst hquote; exact rfl
  · subst hbackslash; exact rfl
  · subst hnewline; exact rfl
  · subst hreturn; exact rfl
  · subst htab; exact rfl
  · rw [hbackspace]; exact rfl
  · rw [hfeed]; exact rfl
  -- The control characters that are left have a code of one digit or of two.
  · have hdigits : ("\\u000" ++ String.ofList (Nat.toDigits 16 c.toNat)).toList =
        ['\\', 'u', Nat.digitChar 0, Nat.digitChar 0, Nat.digitChar 0, c.toNat.digitChar] := by
      rw [Nat.toDigits_of_lt_base hshort, String.toList_append, String.toList_ofList,
        String.toList_ofList]
      rfl
    rw [hdigits]
    simpa using scans_code read 0 0 0 c.toNat (by omega) (by omega) (by omega) hshort
  · have hdigits : ("\\u00" ++ String.ofList (Nat.toDigits 16 c.toNat)).toList =
        ['\\', 'u', Nat.digitChar 0, Nat.digitChar 0, (c.toNat / 16).digitChar,
          (c.toNat % 16).digitChar] := by
      rw [Nat.toDigits_of_base_le (by omega) (by omega), Nat.toDigits_of_lt_base (by omega),
        String.toList_append, String.toList_ofList, String.toList_ofList]
      rfl
    have hcode : 0x10 * (0x10 * (0x10 * (0x10 * 0 + 0) + 0) + c.toNat / 16) + c.toNat % 16 =
        c.toNat := by omega
    have hscans : Scans (tokens, .text read) _ _ :=
      scans_code read 0 0 (c.toNat / 16) (c.toNat % 16) (by omega) (by omega) (by omega) (by omega)
    rwa [hcode, ← hdigits] at hscans
  · have hself : c.toString.toList = [c] := String.toList_singleton c
    rw [hself]
    refine .cons ?_ .nil
    rw [nextCharacter?, if_neg hquote, if_neg hbackslash, if_neg hlong]

theorem scans_characters (read : List Nat) :
    Scans (tokens, .text read) (cs.flatMap fun c => (escapedChar c).toList)
      (tokens, .text ((cs.map Char.toNat).reverse ++ read)) := by
  induction cs generalizing read with
  | nil => exact .nil
  | cons c cs ih =>
    rw [List.flatMap_cons, List.map_cons, List.reverse_cons, List.append_assoc]
    exact (scans_escapedChar read).append (ih _)

/-- A text between quotes is read as the text. -/
theorem scans_escaped (s : String) :
    Scans (tokens, .between) (escaped s).toList (.plain (.text s) :: tokens, .between) := by
  have hchars : (escaped s).toList =
      '"' :: (s.toList.flatMap (fun c => (escapedChar c).toList) ++ ['"']) := by
    rw [escaped, String.toList_append, String.toList_append, String.toList_join, List.flatMap_map]
    rfl
  rw [hchars]
  refine .cons (q := (tokens, .text [])) rfl ((scans_characters []).append (.cons ?_ .nil))
  rw [List.append_nil, nextCharacter?, if_pos rfl, textToken?_codes]
  rfl

end

end Doomtown.Json
