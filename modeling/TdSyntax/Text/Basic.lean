/-!
# Texts and byte offsets

A text is a list of characters.  Every offset and every length in this library
counts the bytes of the UTF-8 form, so a text has a `size` besides its number
of characters, and an offset may fall inside a character.  `splitAt?` cuts a
text at an offset and `slice?` takes out a range; both give `none` where a cut
would fall past the end or inside a character.
-/

namespace TdSyntax

abbrev Text := List Char

namespace Text

/-- The number of bytes of the UTF-8 form. -/
def size : Text → Nat
  | [] => 0
  | c :: rest => c.utf8Size + size rest

@[simp] theorem size_nil : size [] = 0 := rfl

@[simp] theorem size_cons (c : Char) (text : Text) :
    size (c :: text) = c.utf8Size + size text := rfl

@[simp] theorem size_append (first second : Text) :
    size (first ++ second) = size first + size second := by
  induction first with
  | nil => simp
  | cons c first ih => simp [ih, Nat.add_assoc]

def splitAt? (offset : Nat) (text : Text) : Option (Text × Text) :=
  if offset = 0 then some ([], text)
  else
    match text with
    | [] => none
    | c :: rest =>
        if c.utf8Size ≤ offset then
          (splitAt? (offset - c.utf8Size) rest).map fun (before, after) =>
            (c :: before, after)
        else none

theorem splitAt?_size (first second : Text) :
    splitAt? (size first) (first ++ second) = some (first, second) := by
  induction first with
  | nil => unfold splitAt?; rfl
  | cons c first ih =>
      have hc := c.utf8Size_pos
      have hne : ¬ (size (c :: first) = 0) := by
        rw [size_cons]
        omega
      unfold splitAt?
      rw [if_neg hne]
      simp [ih]

theorem append_of_splitAt? {offset : Nat} {text before after : Text}
    (h : splitAt? offset text = some (before, after)) :
    before ++ after = text ∧ size before = offset := by
  fun_induction splitAt? offset text generalizing before after with
  | case1 => simp_all
  | case2 => simp at h
  | case3 offset hne c rest hle ih =>
      obtain ⟨⟨b, a⟩, hsplit, heq⟩ := Option.map_eq_some_iff.1 h
      obtain ⟨rfl, rfl⟩ := Prod.mk.inj heq
      have ⟨happ, hsize⟩ := ih hsplit
      refine ⟨by simp [happ], ?_⟩
      rw [size_cons, hsize]
      omega
  | case4 => simp at h

def slice? (start stop : Nat) (text : Text) : Option Text := do
  let (_, after) ← splitAt? start text
  if stop < start then none
  else
    let (part, _) ← splitAt? (stop - start) after
    pure part

def isBoundary (offset : Nat) (text : Text) : Bool := (splitAt? offset text).isSome

/-- The number of characters up to the end of the first `first` that is
directly followed by `second`, both included. -/
def lengthThroughPair? (first second : Char) : Text → Option Nat
  | [] => none
  | [_] => none
  | c :: d :: rest =>
      if c = first ∧ d = second then some 2
      else (lengthThroughPair? first second (d :: rest)).map (· + 1)

/-- The characters after the longest common start of `word` and the text, if
the text starts with the whole word. -/
def dropWord? : Text → Text → Option Text
  | [], text => some text
  | _ :: _, [] => none
  | w :: word, c :: text => if w = c then dropWord? word text else none

theorem dropWord?_eq_some_iff {word text rest : Text} :
    dropWord? word text = some rest ↔ text = word ++ rest := by
  induction word generalizing text with
  | nil => simp [dropWord?, eq_comm]
  | cons w word ih =>
      cases text with
      | nil => simp [dropWord?]
      | cons c text =>
          by_cases h : w = c
          · simp [dropWord?, h, ih]
          · simp [dropWord?, h, Ne.symm h]

end Text

end TdSyntax
