import Mathlib.Data.List.Infix
import Mathlib.Data.Set.Card
import Mathlib.Logic.Relation
import TdSyntax.Include.Access
import TdSyntax.Proofs.Include.Directives

/-!
# Files that are found one after the other

Include statements are followed one at a time: file by file, the files in the order in
which they became known, and each file's statements in the order of its text.  Following
a statement makes at most one more file known, and a file with the path of a known one is
not a new file.
-/

namespace TdSyntax

namespace SourceFile

def directives (file : SourceFile) : List IncludeDirective :=
  file.includeDirectives.toOption.getD []

theorem includeDirectives_eq (file : SourceFile) :
    file.includeDirectives = .ok file.directives := by
  obtain ⟨parse, directives, -, hdirectives, -⟩ := file.includeDirectives_eq_ok
  rw [SourceFile.directives, hdirectives]
  rfl

end SourceFile

/-- An include statement with its file and the number of the file. -/
structure IncludeSite where
  number : Nat
  file : SourceFile
  directive : IncludeDirective

namespace IncludeSite

def ofFile (file : SourceFile) (number : Nat) : List IncludeSite :=
  file.directives.map fun directive => ⟨number, file, directive⟩

def ofFiles (files : List SourceFile) : List IncludeSite :=
  files.zipIdx.flatMap fun (file, number) => ofFile file number

theorem ofFiles_append (files : List SourceFile) (file : SourceFile) :
    ofFiles (files ++ [file]) = ofFiles files ++ ofFile file files.length := by
  simp [ofFiles, List.zipIdx_append]

theorem ofFiles_singleton (file : SourceFile) : ofFiles [file] = ofFile file 0 :=
  List.append_nil _

theorem prefix_ofFiles {files more : List SourceFile} (h : files <+: more) :
    ofFiles files <+: ofFiles more := by
  obtain ⟨others, rfl⟩ := h
  rw [ofFiles, ofFiles, List.zipIdx_append, List.flatMap_append]
  exact List.prefix_append _ _

theorem file_of_mem {files : List SourceFile} {site : IncludeSite} (h : site ∈ ofFiles files) :
    files[site.number]? = some site.file ∧ site.directive ∈ site.file.directives := by
  obtain ⟨⟨file, number⟩, hfile, hsite⟩ := List.mem_flatMap.1 h
  obtain ⟨directive, hdirective, rfl⟩ := List.mem_map.1 hsite
  exact ⟨List.mem_zipIdx_iff_getElem?.1 hfile, hdirective⟩

theorem number_lt {files : List SourceFile} {site : IncludeSite} (h : site ∈ ofFiles files) :
    site.number < files.length :=
  (List.getElem?_eq_some_iff.1 (file_of_mem h).1).1

theorem number_of_mem {file : SourceFile} {number : Nat} {site : IncludeSite}
    (h : site ∈ ofFile file number) : site.number = number := by
  obtain ⟨directive, -, rfl⟩ := List.mem_map.1 h
  rfl

theorem pairwise_ofFiles (files : List SourceFile) :
    (ofFiles files).Pairwise fun first second => first.number ≤ second.number := by
  induction files using List.reverseRecOn with
  | nil => exact .nil
  | append_singleton files last ih =>
      rw [ofFiles_append, List.pairwise_append]
      refine ⟨ih, ?_, ?_⟩
      · refine List.pairwise_of_forall_mem_list fun first hfirst second hsecond => ?_
        rw [number_of_mem hfirst, number_of_mem hsecond]
      · intro first hfirst second hsecond
        rw [number_of_mem hsecond]
        exact Nat.le_of_lt (number_lt hfirst)

end IncludeSite

namespace Resolver

variable (resolver : Resolver Id)

def canonical (file : SourceFile) : List PathComponent :=
  Path.components (resolver.identity file.path)

/-- A statement of the one file leads to the other. -/
def Includes (first second : SourceFile) : Prop :=
  ∃ directive ∈ first.directives, resolver.resolve first.path directive.name = .ok second

def resolveAt (site : IncludeSite) : Except ResolveError SourceFile :=
  resolver.resolve site.file.path site.directive.name

def target? (site : IncludeSite) : Option SourceFile := (resolver.resolveAt site).toOption

def add (files : List SourceFile) (file : SourceFile) : List SourceFile :=
  if resolver.canonical file ∈ files.map resolver.canonical then files else files ++ [file]

def firsts (files : List SourceFile) : List SourceFile := files.foldl resolver.add []

/-- The files that are known when `count` include statements have been followed. -/
def found (root : SourceFile) : (count : Nat) → List SourceFile
  | 0 => [root]
  | count + 1 =>
      (((IncludeSite.ofFiles (found root count))[count]?).bind resolver.target?).elim
        (found root count) (resolver.add (found root count))

/-- The files that are reached in so many steps or fewer, each canonical path once. -/
def reached (root : SourceFile) : (steps : Nat) → List SourceFile
  | 0 => [root]
  | steps + 1 =>
      resolver.firsts
        (root :: (IncludeSite.ofFiles (reached root steps)).filterMap resolver.target?)

/-- The canonical paths that are reached in any number of steps. -/
def reachable (root : SourceFile) : Set (List PathComponent) :=
  {path | ∃ steps, path ∈ (resolver.reached root steps).map resolver.canonical}

variable {resolver} {root : SourceFile} {files : List SourceFile} {file : SourceFile}

theorem target?_eq_some {site : IncludeSite} :
    resolver.target? site = some file ↔ resolver.resolveAt site = .ok file := by
  rw [target?]
  cases resolver.resolveAt site with
  | error error => simp [Except.toOption]
  | ok other => simp [Except.toOption]

theorem includes_of_target {site : IncludeSite} (hmem : site ∈ IncludeSite.ofFiles files)
    (htarget : resolver.target? site = some file) : resolver.Includes site.file file :=
  ⟨site.directive, (IncludeSite.file_of_mem hmem).2, target?_eq_some.1 htarget⟩

theorem prefix_add (files : List SourceFile) (file : SourceFile) :
    files <+: resolver.add files file := by
  unfold add
  split
  · exact List.prefix_refl _
  · exact List.prefix_append _ _

theorem prefix_found_succ (count : Nat) :
    resolver.found root count <+: resolver.found root (count + 1) := by
  rw [found]
  cases (IncludeSite.ofFiles (resolver.found root count))[count]?.bind resolver.target? with
  | none => exact List.prefix_refl _
  | some file => exact prefix_add _ file

theorem prefix_found (root : SourceFile) {count later : Nat} (h : count ≤ later) :
    resolver.found root count <+: resolver.found root later := by
  induction later, h using Nat.le_induction with
  | base => exact List.prefix_refl _
  | succ later _ ih => exact ih.trans (prefix_found_succ later)

theorem found_head (root : SourceFile) (count : Nat) :
    (resolver.found root count)[0]? = some root := by
  have hextends : [root] <+: resolver.found root count := prefix_found root (Nat.zero_le count)
  obtain ⟨others, hothers⟩ := hextends
  rw [← hothers]
  rfl

theorem nodup_add (h : (files.map resolver.canonical).Nodup) (file : SourceFile) :
    ((resolver.add files file).map resolver.canonical).Nodup := by
  unfold add
  split
  · exact h
  · rename_i hnew
    rw [List.map_append, List.nodup_append]
    refine ⟨h, by simp, ?_⟩
    intro path hpath other hother heq
    obtain rfl := List.mem_singleton.1 hother
    exact hnew (heq ▸ hpath)

theorem nodup_found (root : SourceFile) (count : Nat) :
    ((resolver.found root count).map resolver.canonical).Nodup := by
  induction count with
  | zero => simp [found]
  | succ count ih =>
      rw [found]
      cases (IncludeSite.ofFiles (resolver.found root count))[count]?.bind resolver.target? with
      | none => exact ih
      | some file => exact nodup_add ih file

theorem found_of_none {count : Nat}
    (h : (IncludeSite.ofFiles (resolver.found root count))[count]?.bind resolver.target? = none) :
    resolver.found root (count + 1) = resolver.found root count := by
  rw [found, h, Option.elim_none]

theorem found_of_some {count : Nat}
    (h : (IncludeSite.ofFiles (resolver.found root count))[count]?.bind resolver.target? =
      some file) :
    resolver.found root (count + 1) = resolver.add (resolver.found root count) file := by
  rw [found, h, Option.elim_some]

theorem take_ofFiles_succ (root : SourceFile) (count : Nat) :
    (IncludeSite.ofFiles (resolver.found root (count + 1))).take (count + 1) =
      (IncludeSite.ofFiles (resolver.found root count)).take count ++
        (IncludeSite.ofFiles (resolver.found root count))[count]?.toList := by
  rw [← List.take_add_one]
  cases hnext : (IncludeSite.ofFiles (resolver.found root count))[count]? with
  | none => rw [found_of_none (by rw [hnext]; rfl)]
  | some site =>
      obtain ⟨hlt, -⟩ := List.getElem?_eq_some_iff.1 hnext
      have hextends : resolver.found root count <+: resolver.found root (count + 1) :=
        prefix_found_succ count
      obtain ⟨others, hothers⟩ := IncludeSite.prefix_ofFiles hextends
      rw [← hothers, List.take_append_of_le_length hlt]

theorem found_eq_firsts (root : SourceFile) (count : Nat) :
    resolver.found root count = resolver.firsts
      (root :: ((IncludeSite.ofFiles (resolver.found root count)).take count).filterMap
        resolver.target?) := by
  induction count with
  | zero => rfl
  | succ count ih =>
      rw [take_ofFiles_succ, List.filterMap_append, ← List.cons_append, firsts, List.foldl_append]
      rw [firsts] at ih
      rw [← ih]
      cases hnext : (IncludeSite.ofFiles (resolver.found root count))[count]? with
      | none => rw [found_of_none (by rw [hnext]; rfl)]; rfl
      | some site =>
          cases htarget : resolver.target? site with
          | none =>
              rw [found_of_none (by rw [hnext]; exact htarget)]
              simp [htarget]
          | some file =>
              rw [found_of_some (by rw [hnext]; exact htarget)]
              simp [htarget]

theorem found_of_all_followed {count later : Nat}
    (hall : (IncludeSite.ofFiles (resolver.found root count)).length ≤ count)
    (hle : count ≤ later) : resolver.found root later = resolver.found root count := by
  induction later, hle using Nat.le_induction with
  | base => rfl
  | succ later hle ih =>
      rw [← ih]
      apply found_of_none
      rw [ih, List.getElem?_eq_none (by omega), Option.bind_none]

theorem firsts_of_all_followed {count : Nat}
    (hall : (IncludeSite.ofFiles (resolver.found root count)).length ≤ count) :
    resolver.firsts (root ::
      (IncludeSite.ofFiles (resolver.found root count)).filterMap resolver.target?) =
        resolver.found root count := by
  have hfound : resolver.found root count = _ := found_eq_firsts root count
  rw [List.take_of_length_le hall] at hfound
  exact hfound.symm

/-- What so many steps reach is known once the statements before the last step have been
followed. -/
theorem exists_found_eq_reached (resolver : Resolver Id) (root : SourceFile) (steps : Nat) :
    ∃ count, steps ≤ count ∧ resolver.found root count = resolver.reached root steps := by
  induction steps with
  | zero => exact ⟨0, Nat.le_refl 0, rfl⟩
  | succ steps ih =>
      obtain ⟨count, hle, hfound⟩ := ih
      rw [reached, ← hfound]
      by_cases hall : (IncludeSite.ofFiles (resolver.found root count)).length ≤ count
      · refine ⟨count + 1, Nat.succ_le_succ hle, ?_⟩
        rw [found_of_all_followed hall (Nat.le_succ count), firsts_of_all_followed hall]
      · have hextends : resolver.found root count <+:
            resolver.found root (IncludeSite.ofFiles (resolver.found root count)).length :=
          prefix_found root (Nat.le_of_not_ge hall)
        have htake := List.prefix_iff_eq_take.1 (IncludeSite.prefix_ofFiles hextends)
        refine ⟨(IncludeSite.ofFiles (resolver.found root count)).length, by omega, ?_⟩
        rw [found_eq_firsts, ← htake]

theorem mem_reachable {path : List PathComponent} :
    path ∈ resolver.reachable root ↔
      ∃ count, path ∈ (resolver.found root count).map resolver.canonical := by
  constructor
  · rintro ⟨steps, hpath⟩
    obtain ⟨count, -, hfound⟩ := exists_found_eq_reached resolver root steps
    exact ⟨count, hfound ▸ hpath⟩
  · rintro ⟨steps, hpath⟩
    obtain ⟨count, hle, hfound⟩ := exists_found_eq_reached resolver root steps
    have hextends : resolver.found root steps <+: resolver.found root count := prefix_found root hle
    exact ⟨steps, hfound ▸ (hextends.map resolver.canonical).subset hpath⟩

theorem added_of_found {count number : Nat}
    (h : (resolver.found root count)[number + 1]? = some file) :
    ∃ step < count, (resolver.found root step).length = number + 1 ∧
      ∃ site, (IncludeSite.ofFiles (resolver.found root step))[step]? = some site ∧
        resolver.target? site = some file := by
  induction count with
  | zero => simp [found] at h
  | succ count ih =>
      have hearlier (h : (resolver.found root count)[number + 1]? = some file) :
          ∃ step < count + 1, (resolver.found root step).length = number + 1 ∧
            ∃ site, (IncludeSite.ofFiles (resolver.found root step))[step]? = some site ∧
              resolver.target? site = some file := by
        obtain ⟨step, hstep, hadded⟩ := ih h
        exact ⟨step, Nat.lt_succ_of_lt hstep, hadded⟩
      cases hnext : (IncludeSite.ofFiles (resolver.found root count))[count]?.bind
          resolver.target? with
      | none =>
          rw [found_of_none hnext] at h
          exact hearlier h
      | some other =>
          obtain ⟨site, hsite, htarget⟩ := Option.bind_eq_some_iff.1 hnext
          rw [found_of_some hnext, add] at h
          split at h
          · exact hearlier h
          · rw [List.getElem?_append] at h
            split at h
            · exact hearlier h
            · rename_i hbehind
              obtain ⟨hindex, hfile⟩ := List.getElem?_eq_some_iff.1 h
              rw [List.length_singleton] at hindex
              have heq : other = file := by simpa [Nat.lt_one_iff.1 hindex] using hfile
              exact ⟨count, Nat.lt_succ_self count, by omega, site, hsite, heq ▸ htarget⟩

theorem target_of_found {count number : Nat}
    (h : (resolver.found root count)[number + 1]? = some file) :
    ∃ site ∈ IncludeSite.ofFiles (resolver.found root count), site.number ≤ number ∧
      resolver.target? site = some file := by
  obtain ⟨step, hstep, hlength, site, hsite, htarget⟩ := added_of_found h
  have hmem := List.mem_of_getElem? hsite
  have hextends : resolver.found root step <+: resolver.found root count :=
    prefix_found root (Nat.le_of_lt hstep)
  have hlt := IncludeSite.number_lt hmem
  exact ⟨site, (IncludeSite.prefix_ofFiles hextends).subset hmem, by omega, htarget⟩

theorem includes_found {count : Nat} (h : file ∈ resolver.found root count) :
    Relation.ReflTransGen
      (fun first second => first ∈ resolver.found root count ∧ resolver.Includes first second)
      root file := by
  obtain ⟨number, hfile⟩ := List.mem_iff_getElem?.1 h
  clear h
  induction number using Nat.strong_induction_on generalizing file with
  | _ number ih =>
      cases number with
      | zero =>
          obtain rfl := Option.some.inj ((found_head root count).symm.trans hfile)
          exact .refl
      | succ number =>
          obtain ⟨site, hmem, hnumber, htarget⟩ := target_of_found hfile
          have hsource := (IncludeSite.file_of_mem hmem).1
          refine (ih site.number (by omega) hsource).tail ?_
          exact ⟨List.mem_of_getElem? hsource, includes_of_target hmem htarget⟩

theorem reachable_subset (resolver : Resolver Id) (root : SourceFile) :
    resolver.reachable root ⊆
      resolver.canonical '' {file | Relation.ReflTransGen resolver.Includes root file} := by
  intro path hreached
  obtain ⟨count, hpath⟩ := mem_reachable.1 hreached
  obtain ⟨file, hfile, rfl⟩ := List.mem_map.1 hpath
  refine ⟨file, ?_, rfl⟩
  exact Relation.ReflTransGen.mono (fun _ _ hincludes => hincludes.2) _ _ (includes_found hfile)

theorem length_found_le (h : (resolver.reachable root).Finite) (count : Nat) :
    (resolver.found root count).length ≤ (resolver.reachable root).ncard := by
  have hsubset : (((resolver.found root count).map resolver.canonical).toFinset :
      Set (List PathComponent)) ⊆ resolver.reachable root := by
    intro path hpath
    exact mem_reachable.2 ⟨count, List.mem_toFinset.1 (Finset.mem_coe.1 hpath)⟩
  have hcard := Set.ncard_le_ncard hsubset h
  rwa [Set.ncard_coe_finset, List.toFinset_card_of_nodup (nodup_found root count),
    List.length_map] at hcard

theorem mem_found_of_target {count step : Nat}
    (hall : (IncludeSite.ofFiles (resolver.found root count)).length ≤ count) {site : IncludeSite}
    (hsite : (IncludeSite.ofFiles (resolver.found root count))[step]? = some site)
    (htarget : resolver.target? site = some file) :
    resolver.canonical file ∈ (resolver.found root (step + 1)).map resolver.canonical := by
  obtain ⟨hstep, -⟩ := List.getElem?_eq_some_iff.1 hsite
  have hle : step ≤ count := by omega
  by_cases hlast : (IncludeSite.ofFiles (resolver.found root step)).length ≤ step
  · rw [found_of_all_followed hlast hle] at hstep
    omega
  · have hextends : resolver.found root step <+: resolver.found root count := prefix_found root hle
    obtain ⟨others, hothers⟩ := IncludeSite.prefix_ofFiles hextends
    rw [← hothers, List.getElem?_append_left (by omega)] at hsite
    rw [found_of_some (by rw [hsite]; exact htarget), add]
    split
    · assumption
    · simp

theorem lt_length_of_mem {count step number : Nat} (hle : step ≤ count)
    (hfile : (resolver.found root count)[number]? = some file)
    (hknown : resolver.canonical file ∈ (resolver.found root step).map resolver.canonical) :
    number < (resolver.found root step).length := by
  obtain ⟨known, hmem, hsame⟩ := List.mem_map.1 hknown
  obtain ⟨index, hindex⟩ := List.mem_iff_getElem?.1 hmem
  obtain ⟨hlt, -⟩ := List.getElem?_eq_some_iff.1 hindex
  have hextends : resolver.found root step <+: resolver.found root count := prefix_found root hle
  have hlater : (resolver.found root count)[index]? = some known := by
    obtain ⟨others, hothers⟩ := hextends
    rw [← hothers, List.getElem?_append_left hlt, hindex]
  have heq : ((resolver.found root count).map resolver.canonical)[index]? =
      ((resolver.found root count).map resolver.canonical)[number]? := by
    rw [List.getElem?_map, List.getElem?_map, hlater, hfile, Option.map_some, Option.map_some, hsame]
  have hnodup : ((resolver.found root count).map resolver.canonical).Nodup :=
    nodup_found root count
  have hbound : index < ((resolver.found root count).map resolver.canonical).length := by
    rw [List.length_map]
    exact Nat.lt_of_lt_of_le hlt hextends.length_le
  rw [← (List.getElem?_inj hbound hnodup).1 heq]
  exact hlt

/-- If a statement leads to a file, each file in front of it is found through a statement
that does not stand in a later file. -/
theorem found_before {count earlier later : Nat}
    (hall : (IncludeSite.ofFiles (resolver.found root count)).length ≤ count)
    {first second target : SourceFile} (hfirst : (resolver.found root count)[earlier + 1]? = some first)
    (hsecond : (resolver.found root count)[later]? = some second) (hle : earlier + 1 ≤ later)
    {site : IncludeSite} (hmem : site ∈ IncludeSite.ofFiles (resolver.found root count))
    (htarget : resolver.target? site = some target)
    (hsame : resolver.canonical target = resolver.canonical second) :
    ∃ other ∈ IncludeSite.ofFiles (resolver.found root count), other.number ≤ site.number ∧
      resolver.target? other = some first := by
  obtain ⟨step, hsite⟩ := List.mem_iff_getElem?.1 hmem
  obtain ⟨before, hbefore, hlength, other, hother, hfound⟩ := added_of_found hfirst
  have hknown := mem_found_of_target hall hsite htarget
  rw [hsame] at hknown
  obtain ⟨hindex, hget⟩ := List.getElem?_eq_some_iff.1 hsite
  have hstep : step + 1 ≤ count := by omega
  have hlater := lt_length_of_mem hstep hsecond hknown
  -- otherwise the second file would have been known when the first was added in front of it
  have horder : before ≤ step := by
    by_contra hbehind
    have hextends : resolver.found root (step + 1) <+: resolver.found root before :=
      prefix_found root (by omega)
    have hfewer := hextends.length_le
    omega
  have hextends : resolver.found root before <+: resolver.found root count :=
    prefix_found root (Nat.le_of_lt hbefore)
  obtain ⟨others, hothers⟩ := IncludeSite.prefix_ofFiles hextends
  obtain ⟨hlt, -⟩ := List.getElem?_eq_some_iff.1 hother
  have hplace : (IncludeSite.ofFiles (resolver.found root count))[before]? = some other := by
    rw [← hothers, List.getElem?_append_left hlt, hother]
  refine ⟨other, List.mem_of_getElem? hplace, ?_, hfound⟩
  rcases Nat.lt_or_eq_of_le horder with hless | rfl
  · obtain ⟨hplaced, hgotten⟩ := List.getElem?_eq_some_iff.1 hplace
    have hnumbers := List.pairwise_iff_getElem.1
      (IncludeSite.pairwise_ofFiles (resolver.found root count)) before step hplaced hindex hless
    rwa [hget, hgotten] at hnumbers
  · obtain rfl := Option.some.inj (hplace.symm.trans hsite)
    exact Nat.le_refl _

theorem mem_reachable_iff {count : Nat}
    (hall : (IncludeSite.ofFiles (resolver.found root count)).length ≤ count)
    {path : List PathComponent} :
    path ∈ resolver.reachable root ↔ path ∈ (resolver.found root count).map resolver.canonical := by
  constructor
  · intro hreached
    obtain ⟨other, hpath⟩ := mem_reachable.1 hreached
    have hextends : resolver.found root other <+: resolver.found root (max count other) :=
      prefix_found root (Nat.le_max_right _ _)
    rw [found_of_all_followed hall (Nat.le_max_left _ _)] at hextends
    exact (hextends.map resolver.canonical).subset hpath
  · intro hpath
    exact mem_reachable.2 ⟨count, hpath⟩

/-- With finitely many canonical paths there is a last statement to follow: files become
known only so often, and then there are only so many statements. -/
theorem exists_all_followed (h : (resolver.reachable root).Finite) :
    ∃ count, (IncludeSite.ofFiles (resolver.found root count)).length ≤ count := by
  by_contra! hmore
  have hgrows (count : Nat) : ∃ later,
      (resolver.found root count).length < (resolver.found root later).length := by
    by_contra! hsame
    -- the files stay the same, so following all of their statements is the end
    have hstill {later : Nat} (hle : count ≤ later) :
        resolver.found root later = resolver.found root count :=
      ((prefix_found root hle).eq_of_length_le (hsame later)).symm
    have hlater := hmore
      (max count (IncludeSite.ofFiles (resolver.found root count)).length)
    rw [hstill (Nat.le_max_left _ _)] at hlater
    omega
  have hlong (size : Nat) : ∃ count, size ≤ (resolver.found root count).length := by
    induction size with
    | zero => exact ⟨0, Nat.zero_le _⟩
    | succ size ih =>
        obtain ⟨count, hcount⟩ := ih
        obtain ⟨later, hlater⟩ := hgrows count
        exact ⟨later, by omega⟩
  obtain ⟨count, hcount⟩ := hlong ((resolver.reachable root).ncard + 1)
  have hbound := length_found_le h count
  omega

end Resolver

end TdSyntax
