import Mathlib.Data.List.TakeWhile
import TdSyntax.Text.Blank
import TdSyntax.Token.Number

/-!
# Numbers and names in front of a separator

How far a number or a name at the start of a text reaches if a character that belongs to
no word or the end of the text stands behind it.
-/

namespace TdSyntax

def Text.StopsAt (after : Text) (stop : Char) : Prop := after = [] ∨ ∃ more, after = stop :: more

def Text.IsSeparated (after : Text) : Prop := after.StopsAt ' '

namespace Text.StopsAt

variable {text after : Text} {stop : Char}

theorem head?_any (h : after.StopsAt stop) {member : Char → Bool} (hstop : member stop = false) :
    after.head?.any member = false := by
  rcases h with rfl | ⟨more, rfl⟩
  · rfl
  · simpa using hstop

theorem takeWhile (h : after.StopsAt stop) {member : Char → Bool} (hstop : member stop = false) :
    (text ++ after).takeWhile member = text.takeWhile member := by
  rw [List.takeWhile_append]
  split
  · rename_i hall
    rcases h with rfl | ⟨more, rfl⟩
    · simp [List.IsPrefix.eq_of_length (List.takeWhile_prefix member) hall]
    · simp [hstop, List.IsPrefix.eq_of_length (List.takeWhile_prefix member) hall]
  · rfl

theorem runLength (h : after.StopsAt stop) {member : Char → Bool} (hstop : member stop = false) :
    runLength member (text ++ after) = Text.runLength member text := by
  rw [Text.runLength, h.takeWhile hstop, Text.runLength]

theorem head?_any_append (h : after.StopsAt stop) {member : Char → Bool}
    (hstop : member stop = false) :
    (text ++ after).head?.any member = text.head?.any member := by
  cases text with
  | nil => simpa using h.head?_any hstop
  | cons c text => rfl

theorem dropWord? (h : after.StopsAt stop) {word : Text} (hword : stop ∉ word) :
    dropWord? word (text ++ after) = (Text.dropWord? word text).map (· ++ after) := by
  induction word generalizing text with
  | nil => simp [Text.dropWord?]
  | cons c word ih =>
      simp only [List.mem_cons, not_or] at hword
      cases text with
      | nil =>
          rcases h with rfl | ⟨more, rfl⟩
          · simp [Text.dropWord?]
          · simp [Text.dropWord?, Ne.symm hword.1]
      | cons d text =>
          simp only [List.cons_append, Text.dropWord?]
          split
          · exact ih hword.2
          · rfl

end Text.StopsAt

theorem Text.isAlpha_iff {c : Char} :
    c.isAlpha = true ↔ (65 ≤ c.toNat ∧ c.toNat ≤ 90) ∨ (97 ≤ c.toNat ∧ c.toNat ≤ 122) := by
  have hupper : c.isUpper = decide (65 ≤ c.toNat ∧ c.toNat ≤ 90) := rfl
  have hlower : c.isLower = (decide (97 ≤ c.toNat) && decide (c.toNat ≤ 122)) := rfl
  have halpha : c.isAlpha = (c.isUpper || c.isLower) := rfl
  simp only [halpha, hupper, hlower, Bool.or_eq_true, Bool.and_eq_true, decide_eq_true_eq]

theorem Text.isBlank_eq_false_of_isWordPart {c : Char} (h : isWordPart c = true) :
    isBlank c = false := by
  simp only [isWordPart, Char.isAlphanum, Bool.or_eq_true, beq_iff_eq, isAlpha_iff,
    Char.isDigit_iff_toNat, Char.reduceToNat] at h
  simp only [isBlank, blankRanges, List.any_cons, List.any_nil, Bool.or_false,
    Bool.or_eq_false_iff, Bool.and_eq_false_iff, decide_eq_false_iff_not]
  rcases h with (h | h) | rfl
  · omega
  · omega
  · decide

theorem Text.isWordPart_of_isDigit {c : Char} (h : c.isDigit = true) : isWordPart c = true := by
  simp [isWordPart, Char.isAlphanum, h]

theorem Text.isWordPart_of_isBinaryDigit {c : Char} (h : isBinaryDigit c = true) :
    isWordPart c = true := by
  simp only [isBinaryDigit, Bool.or_eq_true, beq_iff_eq] at h
  rcases h with rfl | rfl <;> decide

theorem Text.isWordPart_of_isHexDigit {c : Char} (h : isHexDigit c = true) :
    isWordPart c = true := by
  have hlower : 'a' ≤ c ∧ c ≤ 'f' ↔ 97 ≤ c.toNat ∧ c.toNat ≤ 102 := Iff.rfl
  have hupper : 'A' ≤ c ∧ c ≤ 'F' ↔ 65 ≤ c.toNat ∧ c.toNat ≤ 70 := Iff.rfl
  simp only [isHexDigit, Bool.or_eq_true, Bool.and_eq_true, decide_eq_true_eq] at h
  rcases h with (hdigit | hletter) | hletter
  · exact isWordPart_of_isDigit hdigit
  · rw [hlower] at hletter
    have halpha : c.isAlpha = true := isAlpha_iff.2 (by omega)
    simp [isWordPart, Char.isAlphanum, halpha]
  · rw [hupper] at hletter
    have halpha : c.isAlpha = true := isAlpha_iff.2 (by omega)
    simp [isWordPart, Char.isAlphanum, halpha]

theorem Text.isWordStart_of_not_isDigit {c : Char} (h : isWordPart c = true)
    (hdigit : c.isDigit = false) : isWordStart c = true := by
  simpa [isWordPart, isWordStart, Char.isAlphanum, hdigit] using h

theorem Text.isDigit_eq_false_of_isWordStart {c : Char} (h : isWordStart c = true) :
    c.isDigit = false := by
  simp only [isWordStart, Bool.or_eq_true, beq_iff_eq, isAlpha_iff] at h
  rw [← Bool.not_eq_true, Char.isDigit_iff_toNat]
  simp only [Char.reduceToNat]
  rcases h with h | rfl
  · omega
  · decide

theorem Text.runLength_eq_length_iff {member : Char → Bool} {text : Text} :
    runLength member text = text.length ↔ text.all member = true := by
  rw [List.all_eq_true, ← List.takeWhile_eq_self_iff, runLength]
  exact ⟨fun h => List.IsPrefix.eq_of_length (List.takeWhile_prefix member) h,
    fun h => by rw [h]⟩

theorem Text.take_runLength (member : Char → Bool) (text : Text) :
    text.take (runLength member text) = text.takeWhile member :=
  (List.prefix_iff_eq_take.1 (List.takeWhile_prefix member)).symm

theorem Text.drop_runLength (member : Char → Bool) (text : Text) :
    text.drop (runLength member text) = text.dropWhile member := by
  have hleft := @List.drop_left _ (text.takeWhile member) (text.dropWhile member)
  rwa [List.takeWhile_append_dropWhile] at hleft

theorem Text.exists_stopsAt {after : Text} (h : after.continuesWord = false) :
    ∃ stop, isWordPart stop = false ∧ after.StopsAt stop := by
  cases after with
  | nil => exact ⟨' ', by decide, .inl rfl⟩
  | cons stop more => exact ⟨stop, by simpa [continuesWord] using h, .inr ⟨more, rfl⟩⟩

theorem Text.head?_any_dropWhile (member : Char → Bool) (text : Text) :
    (text.dropWhile member).head?.any member = false := by
  have hhead := List.head?_dropWhile_not member text
  cases hrest : text.dropWhile member with
  | nil => rfl
  | cons c rest => simpa [hrest] using hhead

namespace Number

open Text

variable {text after : Text}

def isUnsigned (text : Text) : Bool :=
  match text with
  | '0' :: 'x' :: digits => !digits.isEmpty && digits.all isHexDigit
  | '0' :: 'b' :: digits => !digits.isEmpty && digits.all isBinaryDigit
  | _ => !text.isEmpty && text.all Char.isDigit

def isSigned (text : Text) : Bool :=
  match text with
  | sign :: digits =>
      (sign == '-' || sign == '+') && (!digits.isEmpty && digits.all Char.isDigit)
  | [] => false

section

variable {stop : Char} (h : after.StopsAt stop) (hstop : isWordPart stop = false)
include hstop

theorem member_eq_false {member : Char → Bool}
    (hword : ∀ {c}, member c = true → isWordPart c = true) : member stop = false := by
  rw [← Bool.not_eq_true]
  intro hmember
  rw [hword hmember] at hstop
  cases hstop

include h

theorem integerLength_append : integerLength (text ++ after) = integerLength text := by
  have hradix : ∀ {mark : Text} {member : Char → Bool}, mark.all isWordPart = true →
      member stop = false →
      radixLength? mark member (text ++ after) = radixLength? mark member text := by
    intro mark member hmark hmember
    have hnot : stop ∉ mark := by
      intro hmem
      rw [List.all_eq_true.1 hmark stop hmem] at hstop
      cases hstop
    simp only [radixLength?, h.dropWord? hnot]
    cases dropWord? mark text with
    | none => rfl
    | some rest => simp [h.runLength hmember]
  simp only [integerLength]
  rw [h.runLength (member_eq_false hstop isWordPart_of_isDigit),
    hradix (by decide) (member_eq_false hstop isWordPart_of_isHexDigit),
    hradix (by decide) (member_eq_false hstop isWordPart_of_isBinaryDigit)]

theorem nameLength_append : nameLength (text ++ after) = nameLength text := by
  have hle := runLength_le Char.isDigit text
  simp only [nameLength]
  rw [h.runLength (member_eq_false hstop isWordPart_of_isDigit),
    List.drop_append_of_le_length hle,
    h.head?_any_append (member_eq_false hstop isWordPart_of_isWordStart), h.runLength hstop]

end

theorem radixLength?_append (mark digits : Text) (member : Char → Bool) :
    radixLength? mark member (mark ++ digits) =
      if 0 < runLength member digits then some (mark.length + runLength member digits)
      else none := by
  have hdrop : dropWord? mark (mark ++ digits) = some digits := dropWord?_eq_some_iff.2 rfl
  simp [radixLength?, hdrop]

theorem radixLength?_eq_none {mark : Text} {member : Char → Bool}
    (h : ∀ digits, text ≠ mark ++ digits) : radixLength? mark member text = none := by
  have hdrop : dropWord? mark text = none := by
    cases hword : dropWord? mark text with
    | none => rfl
    | some digits => exact absurd (dropWord?_eq_some_iff.1 hword) (h digits)
  simp [radixLength?, hdrop]

theorem radix_length_iff {digits : Text} {member : Char → Bool} {length : Nat}
    (hlength : length = if 0 < runLength member digits then
      max (2 + runLength member digits) 1 else 1) :
    length = digits.length + 2 ↔ (!digits.isEmpty && digits.all member) = true := by
  have hall := @runLength_eq_length_iff member digits
  cases digits with
  | nil => simp [hlength, runLength]
  | cons c digits =>
      rw [← Bool.coe_iff_coe.2 rfl] at hall
      simp only [List.isEmpty_cons, Bool.not_false, Bool.true_and, ← hall, hlength,
        List.length_cons]
      split <;> omega

theorem integerLength_eq_length_iff (h : text ≠ []) :
    integerLength text = text.length ↔ isUnsigned text = true := by
  unfold isUnsigned
  split
  · rename_i digits
    have hdecimal : runLength Char.isDigit ('0' :: 'x' :: digits) = 1 := by simp [runLength]
    have hbinary : radixLength? ['0', 'b'] isBinaryDigit ('0' :: 'x' :: digits) = none :=
      radixLength?_eq_none (by simp)
    refine radix_length_iff ?_
    simp only [integerLength, hdecimal, hbinary]
    rw [show '0' :: 'x' :: digits = ['0', 'x'] ++ digits from rfl, radixLength?_append]
    by_cases hpos : 0 < runLength isHexDigit digits <;> simp [hpos]
  · rename_i digits
    have hdecimal : runLength Char.isDigit ('0' :: 'b' :: digits) = 1 := by simp [runLength]
    have hhex : radixLength? ['0', 'x'] isHexDigit ('0' :: 'b' :: digits) = none :=
      radixLength?_eq_none (by simp)
    refine radix_length_iff ?_
    simp only [integerLength, hdecimal, hhex]
    rw [show '0' :: 'b' :: digits = ['0', 'b'] ++ digits from rfl, radixLength?_append]
    by_cases hpos : 0 < runLength isBinaryDigit digits <;> simp [hpos]
  · rename_i hhex hbinary
    have hradix : radixLength? ['0', 'x'] isHexDigit text = none :=
      radixLength?_eq_none fun digits => hhex digits
    have hradix' : radixLength? ['0', 'b'] isBinaryDigit text = none :=
      radixLength?_eq_none fun digits => hbinary digits
    simp only [integerLength, hradix, hradix', Bool.and_eq_true, ← runLength_eq_length_iff]
    simp [h]

theorem integerLength_le (text : Text) : integerLength text ≤ text.length := by
  have hdecimal := runLength_le Char.isDigit text
  have hradix : ∀ {mark : Text} {member : Char → Bool} {length : Nat},
      radixLength? mark member text = some length → length ≤ text.length := by
    intro mark member length hsome
    simp only [radixLength?, Option.bind_eq_bind, Option.bind_eq_some_iff,
      dropWord?_eq_some_iff] at hsome
    obtain ⟨digits, rfl, hdigits⟩ := hsome
    have := runLength_le member digits
    split at hdigits
    · cases hdigits
      simp only [List.length_append]
      omega
    · cases hdigits
  simp only [integerLength]
  split
  · rename_i length hsome
    simp only [Option.orElse_eq_orElse, Option.orElse_eq_or, Option.or_eq_some_iff] at hsome
    rcases hsome with hsome | ⟨-, hsome⟩ <;> exact Nat.max_le.2 ⟨hradix hsome, hdecimal⟩
  · exact hdecimal

theorem isDigit_of_isUnsigned {first : Char} {rest : Text}
    (h : isUnsigned (first :: rest) = true) : first.isDigit = true := by
  unfold isUnsigned at h
  split at h
  · rename_i heq
    rw [(List.cons.inj heq).1]
    rfl
  · rename_i heq
    rw [(List.cons.inj heq).1]
    rfl
  · simp only [Bool.and_eq_true] at h
    exact List.all_eq_true.1 h.2 first (by simp)

theorem nameLength_le (text : Text) : nameLength text ≤ text.length := by
  have hdigits := runLength_le Char.isDigit text
  have hword := runLength_le isWordPart (text.drop (runLength Char.isDigit text))
  rw [List.length_drop] at hword
  simp only [nameLength]
  split <;> omega

theorem nameLength_eq_length (hword : text.all isWordPart = true)
    (hstart : text.any isWordStart = true) : nameLength text = text.length := by
  have hparts := List.takeWhile_append_dropWhile (p := Char.isDigit) (l := text)
  have hlength := congrArg List.length hparts
  rw [List.length_append] at hlength
  have hdrop := drop_runLength Char.isDigit text
  cases hrest : text.dropWhile Char.isDigit with
  | nil =>
      rw [List.any_eq_true] at hstart
      obtain ⟨c, hmem, hc⟩ := hstart
      have hdigit : ∀ c ∈ text, c.isDigit = true := by simpa using hrest
      exact absurd (hdigit c hmem) (by simp [isDigit_eq_false_of_isWordStart hc])
  | cons c rest =>
      have hmem : ∀ d ∈ c :: rest, isWordPart d = true := by
        intro d hd
        rw [← hrest] at hd
        exact List.all_eq_true.1 hword d ((List.dropWhile_suffix _).subset hd)
      have hdigit : c.isDigit = false := by
        have := List.head?_dropWhile_not Char.isDigit text
        simpa [hrest] using this
      have hc := isWordStart_of_not_isDigit (hmem c (by simp)) hdigit
      have hrun : runLength isWordPart (c :: rest) = (c :: rest).length :=
        runLength_eq_length_iff.2 (List.all_eq_true.2 hmem)
      rw [hrest] at hlength
      simp only [nameLength, hdrop, hrest, List.head?_cons, Option.any_some, hc, if_true, hrun]
      exact hlength

theorem isUnsigned_of_digits (htext : text ≠ []) (h : text.all Char.isDigit = true) :
    isUnsigned text = true := by
  unfold isUnsigned
  split
  · exact absurd (List.all_eq_true.1 h 'x' (by simp)) (by decide)
  · exact absurd (List.all_eq_true.1 h 'b' (by simp)) (by decide)
  · simp [htext, h]

theorem isSigned_of_all (hword : text.all isWordPart = true) : isSigned text = false := by
  cases text with
  | nil => rfl
  | cons c text =>
      have hc := List.all_eq_true.1 hword c (by simp)
      simp only [isSigned, Bool.and_eq_false_iff, Bool.or_eq_false_iff, beq_eq_false_iff_ne]
      left
      constructor <;> (rintro rfl; exact absurd hc (by decide))

theorem any_isWordStart_of_isUnsigned (htext : text ≠ []) (hword : text.all isWordPart = true)
    (hnumber : isUnsigned text = false) : text.any isWordStart = true := by
  by_contra hnone
  refine absurd (isUnsigned_of_digits htext (List.all_eq_true.2 fun c hmem => ?_))
    (by simp [hnumber])
  by_contra hdigit
  exact hnone (List.any_eq_true.2 ⟨c, hmem,
    isWordStart_of_not_isDigit (List.all_eq_true.1 hword c hmem) (by simpa using hdigit)⟩)

end Number

end TdSyntax
