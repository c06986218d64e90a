import Mathlib.Data.List.Forall2
import Mathlib.Data.List.Nodup
import TdSyntax.Diagnostic.Basic

/-!
# The order of diagnostics

Sorting diagnostics by their start is stable.  So it may be done before or after
some of them are left out, and two lists that correspond one by one still do so
when they are sorted, if their starts are in the same order.
-/

namespace TdSyntax.Diagnostic

private def before (first second : Diagnostic) : Bool :=
  decide (first.span.start ≤ second.span.start)

private theorem before_trans (first second third : Diagnostic) :
    before first second = true → before second third = true → before first third = true := by
  simp only [before, decide_eq_true_eq]
  exact Nat.le_trans

private theorem before_total (first second : Diagnostic) :
    (before first second || before second first) = true := by
  simp only [before, Bool.or_eq_true, decide_eq_true_eq]
  exact Nat.le_total _ _

private theorem sort_eq_mergeSort (diagnostics : List Diagnostic) :
    sort diagnostics = diagnostics.mergeSort before := rfl

private theorem cut_unique {diagnostic : Diagnostic} {front back front' back' : List Diagnostic}
    (h : front ++ back = front' ++ back')
    (hfront : ∀ other ∈ front, before diagnostic other = false)
    (hfront' : ∀ other ∈ front', before diagnostic other = false)
    (hback : ∀ other ∈ back, before diagnostic other = true)
    (hback' : ∀ other ∈ back', before diagnostic other = true) :
    front = front' ∧ back = back' := by
  have htake : ∀ {front back : List Diagnostic},
      (∀ other ∈ front, before diagnostic other = false) →
      (∀ other ∈ back, before diagnostic other = true) →
      (front ++ back).takeWhile (fun other => !before diagnostic other) = front := by
    intro front back hfront hback
    rw [List.takeWhile_append_of_pos (by simpa using hfront)]
    cases back with
    | nil => simp
    | cons other back => simp [hback other (by simp)]
  have hsame : front = front' := by
    rw [← htake hfront hback, h, htake hfront' hback']
  subst hsame
  exact ⟨rfl, List.append_cancel_left h⟩

theorem filter_sort (keep : Diagnostic → Bool) (diagnostics : List Diagnostic) :
    (sort diagnostics).filter keep = sort (diagnostics.filter keep) := by
  simp only [sort_eq_mergeSort]
  induction diagnostics with
  | nil => simp
  | cons diagnostic rest ih =>
      have hsorted : ∀ {list front back : List Diagnostic},
          (diagnostic :: list).mergeSort before = front ++ diagnostic :: back →
          ∀ other ∈ back, before diagnostic other = true := by
        intro list front back heq other hmem
        have hpairs := List.pairwise_mergeSort before_trans before_total (diagnostic :: list)
        rw [heq] at hpairs
        exact (List.pairwise_cons.1 (List.pairwise_append.1 hpairs).2.1).1 other hmem
      obtain ⟨front, back, hcons, hrest, hfront⟩ :=
        List.mergeSort_cons before_trans before_total diagnostic rest
      have hback := hsorted hcons
      cases hkeep : keep diagnostic with
      | false =>
          rw [hcons, List.filter_cons_of_neg (by simp [hkeep]), ← ih, hrest]
          simp [hkeep]
      | true =>
          obtain ⟨front', back', hcons', hrest', hfront'⟩ :=
            List.mergeSort_cons before_trans before_total diagnostic (rest.filter keep)
          have hback' := hsorted hcons'
          have hcut : front.filter keep ++ back.filter keep = front' ++ back' := by
            rw [← List.filter_append, ← hrest, ih, hrest']
          obtain ⟨hone, htwo⟩ := cut_unique hcut
            (fun other hmem => by simpa using hfront other (List.mem_filter.1 hmem).1)
            (fun other hmem => by simpa using hfront' other hmem)
            (fun other hmem => hback other (List.mem_filter.1 hmem).1) hback'
          rw [hcons, List.filter_cons_of_pos hkeep, hcons', List.filter_append,
            List.filter_cons_of_pos hkeep, hone, htwo]

theorem pairwise_sort (diagnostics : List Diagnostic) :
    (sort diagnostics).Pairwise fun first second => first.span.start ≤ second.span.start :=
  (List.pairwise_mergeSort before_trans before_total diagnostics).imp (by simp [before])

theorem filter_start_sort (offset : Nat) (diagnostics : List Diagnostic) :
    (sort diagnostics).filter (fun diagnostic => diagnostic.span.start == offset) =
      diagnostics.filter fun diagnostic => diagnostic.span.start == offset := by
  rw [filter_sort]
  refine List.mergeSort_of_pairwise (List.pairwise_of_forall_mem_list ?_)
  intro first hfirst second hsecond
  have hone := (List.mem_filter.1 hfirst).2
  have htwo := (List.mem_filter.1 hsecond).2
  simp only [beq_iff_eq] at hone htwo
  simp [hone, htwo]

theorem sort_eq_of_perm {diagnostics sorted : List Diagnostic} (h : diagnostics.Perm sorted)
    (hsorted : sorted.Pairwise fun first second => first.span.start < second.span.start) :
    sort diagnostics = sorted := by
  have hperm : (sort diagnostics).Perm sorted := (List.mergeSort_perm diagnostics before).trans h
  have hnodup : (sorted.map fun diagnostic => diagnostic.span.start).Nodup :=
    List.pairwise_map.2 (hsorted.imp Nat.ne_of_lt)
  refine hperm.eq_of_pairwise ?_ (pairwise_sort diagnostics) (hsorted.imp Nat.le_of_lt)
  intro first second hfirst hsecond hle hge
  exact List.inj_on_of_nodup_map hnodup (hperm.subset hfirst) hsecond (Nat.le_antisymm hle hge)

theorem forall₂_sort {relation : Diagnostic → Diagnostic → Prop}
    {first second : List Diagnostic} (h : List.Forall₂ relation first second)
    (horder : ∀ {one one' two two'}, relation one one' → relation two two' →
      (one.span.start ≤ two.span.start ↔ one'.span.start ≤ two'.span.start)) :
    List.Forall₂ relation (sort first) (sort second) := by
  have hrelated : ∀ pair ∈ first.zip second, relation pair.1 pair.2 :=
    fun pair hmem => List.forall₂_iff_zip.1 h |>.2 hmem
  have hlength := h.length_eq
  let sorted := (first.zip second).mergeSort fun pair other => before pair.1 other.1
  have hfirst : sorted.map Prod.fst = sort first := by
    rw [sort_eq_mergeSort, ← List.map_fst_zip (Nat.le_of_eq hlength)]
    exact List.map_mergeSort fun _ _ _ _ => rfl
  have hsecond : sorted.map Prod.snd = sort second := by
    rw [sort_eq_mergeSort, ← List.map_snd_zip (Nat.le_of_eq hlength.symm)]
    refine List.map_mergeSort fun pair hpair other hother => ?_
    exact decide_eq_decide.2 (horder (hrelated pair hpair) (hrelated other hother))
  rw [← hfirst, ← hsecond, List.forall₂_map_left_iff, List.forall₂_map_right_iff,
    List.forall₂_same]
  intro pair hmem
  exact hrelated pair (List.mem_mergeSort.1 hmem)

end TdSyntax.Diagnostic
