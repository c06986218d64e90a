import Mathlib.Data.Nat.Digits.Lemmas
import TdSyntax.Include.FileTree
import TdSyntax.Proofs.Include.Found

/-!
# Files that can be read

A search leads only to files that can be read.  So only finitely many paths can be reached
if only finitely many can be read; in a file tree these are short paths, and there are fewer
of them than the limit that is set for a tree.
-/

namespace TdSyntax

namespace Text

/-- A text as a number: its bytes with a one behind them, the least first. -/
def number (text : Text) : Nat :=
  Nat.ofDigits 256 ((text.flatMap String.utf8EncodeChar).map UInt8.toNat ++ [1])

theorem length_flatMap_utf8EncodeChar (text : Text) :
    (text.flatMap String.utf8EncodeChar).length = text.size := by
  induction text with
  | nil => rfl
  | cons c rest ih =>
      rw [List.flatMap_cons, List.length_append, ih, String.length_utf8EncodeChar, size_cons]

theorem lt_of_mem_digits (text : Text) {digit : Nat}
    (h : digit ∈ (text.flatMap String.utf8EncodeChar).map UInt8.toNat ++ [1]) : digit < 256 := by
  rcases List.mem_append.1 h with h | h
  · obtain ⟨byte, -, rfl⟩ := List.mem_map.1 h
    exact byte.toNat_lt
  · obtain rfl := List.mem_singleton.1 h
    decide

theorem number_lt {text : Text} {size : Nat} (h : text.size < size) :
    text.number < Nat.pow 256 size := by
  have hlt := Nat.ofDigits_lt_base_pow_length (by decide : 1 < 256)
    fun _ => text.lt_of_mem_digits
  rw [List.length_append, List.length_map, length_flatMap_utf8EncodeChar] at hlt
  exact hlt.trans_le (Nat.pow_le_pow_right (by decide) h)

theorem number_injective : Function.Injective number := by
  intro first second h
  have hdigits (text : Text) : Nat.digits 256 text.number =
      (text.flatMap String.utf8EncodeChar).map UInt8.toNat ++ [1] :=
    Nat.digits_ofDigits 256 (by decide) _ (fun _ => text.lt_of_mem_digits) (by simp)
  have hbytes : first.flatMap String.utf8EncodeChar = second.flatMap String.utf8EncodeChar := by
    have hequal := (hdigits first).symm.trans ((congrArg (Nat.digits 256) h).trans (hdigits second))
    exact List.map_injective_iff.2 (fun _ _ => UInt8.toNat_inj.1) (List.append_cancel_right hequal)
  have hencoded : (String.ofList first).toByteArray = (String.ofList second).toByteArray :=
    congrArg List.toByteArray hbytes
  exact String.ofList_inj.1 (String.toByteArray_inj.1 hencoded)

end Text

namespace FileAccess

variable {access : FileAccess Id} {name : Text} {paths : List Path} {file : SourceFile}

def readable (access : FileAccess Id) : Set Path := {path | ∃ text, access.read path = .ok text}

theorem firstPresent_eq_ok (h : access.firstPresent name paths = .ok file) :
    access.read file.path = .ok file.text := by
  induction paths with
  | nil => cases h
  | cons path rest ih =>
      rw [firstPresent] at h
      cases hread : access.read path with
      | ok text =>
          simp only [hread] at h
          obtain rfl := Except.ok.inj h
          exact hread
      | error cause =>
          simp only [hread] at h
          cases cause <;> first | exact ih h | cases h

end FileAccess

namespace IncludeSearch

variable {search : IncludeSearch} {access : FileAccess Id} {root : SourceFile}

theorem read_included {file : SourceFile} (hroot : access.read root.path = .ok root.text)
    (h : Relation.ReflTransGen (search.resolver access).Includes root file) :
    access.read file.path = .ok file.text := by
  cases h with
  | refl => exact hroot
  | tail _ hincludes =>
      obtain ⟨directive, -, hresolve⟩ := hincludes
      exact FileAccess.firstPresent_eq_ok hresolve

theorem finite_included (hroot : access.read root.path = .ok root.text)
    (hfinite : access.readable.Finite) :
    {file | Relation.ReflTransGen (search.resolver access).Includes root file}.Finite := by
  refine Set.Finite.of_injOn (f := SourceFile.path) ?_ ?_ hfinite
  · intro file hfile
    exact ⟨file.text, read_included hroot hfile⟩
  · rintro ⟨path, text⟩ hfirst ⟨other, content⟩ hsecond hsame
    obtain rfl : path = other := hsame
    have htext : access.read path = .ok text := read_included hroot hfirst
    have hcontent : access.read path = .ok content := read_included hroot hsecond
    rw [Except.ok.inj (htext.symm.trans hcontent)]

theorem reachable_subset_readable (hroot : access.read root.path = .ok root.text) :
    (search.resolver access).reachable root ⊆
      (fun path => Path.components (access.canonical path)) '' access.readable := by
  intro path hpath
  obtain ⟨file, hreached, rfl⟩ := (search.resolver access).reachable_subset root hpath
  exact ⟨file.path, ⟨file.text, read_included hroot hreached⟩, rfl⟩

theorem finite_reachable (hroot : access.read root.path = .ok root.text)
    (hfinite : access.readable.Finite) : ((search.resolver access).reachable root).Finite :=
  (hfinite.image _).subset (reachable_subset_readable hroot)

theorem ncard_reachable_le (hroot : access.read root.path = .ok root.text)
    (hfinite : access.readable.Finite) :
    ((search.resolver access).reachable root).ncard ≤ access.readable.ncard :=
  (Set.ncard_le_ncard (reachable_subset_readable hroot) (hfinite.image _)).trans
    (Set.ncard_image_le hfinite)

end IncludeSearch

namespace FileTree

variable {tree : FileTree} {path : Path} {root : SourceFile}

theorem size_lt_of_readable (h : path ∈ tree.access.readable) : path.text.size < Path.maxSize := by
  obtain ⟨text, h⟩ := h
  change tree.read path = .ok text at h
  unfold read at h
  split at h
  · cases h
  · split at h
    · cases h
    · omega

theorem number_lt_of_readable (h : path ∈ tree.access.readable) :
    path.text.number < Path.maxCount := by
  have hlt := Text.number_lt (size_lt_of_readable h)
  unfold Path.maxCount
  exact hlt

theorem injOn_number (paths : Set Path) : Set.InjOn (fun path : Path => path.text.number) paths :=
  fun _ _ _ _ h => congrArg Path.mk (Text.number_injective h)

theorem finite_readable (tree : FileTree) : tree.access.readable.Finite :=
  Set.Finite.of_finite_image ((Set.finite_Iio Path.maxCount).subset
    (Set.image_subset_iff.2 fun _ => number_lt_of_readable)) (injOn_number _)

theorem ncard_readable_le (tree : FileTree) : tree.access.readable.ncard ≤ Path.maxCount := by
  have hcard := Set.ncard_le_ncard_of_injOn (t := Set.Iio Path.maxCount) _
    (fun _ => number_lt_of_readable) (injOn_number tree.access.readable)
  rwa [← Finset.coe_Iio, Set.ncard_coe_finset, Nat.card_Iio] at hcard

theorem finite_included (search : IncludeSearch)
    (hroot : tree.access.read root.path = .ok root.text) :
    {file | Relation.ReflTransGen (search.resolver tree.access).Includes root file}.Finite :=
  IncludeSearch.finite_included hroot tree.finite_readable

theorem finite_reachable (search : IncludeSearch)
    (hroot : tree.access.read root.path = .ok root.text) :
    ((search.resolver tree.access).reachable root).Finite :=
  IncludeSearch.finite_reachable hroot tree.finite_readable

theorem ncard_reachable_le (search : IncludeSearch)
    (hroot : tree.access.read root.path = .ok root.text) :
    ((search.resolver tree.access).reachable root).ncard ≤ Path.maxCount :=
  (IncludeSearch.ncard_reachable_le hroot tree.finite_readable).trans tree.ncard_readable_le

end FileTree

end TdSyntax
