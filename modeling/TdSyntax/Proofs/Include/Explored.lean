import TdSyntax.Proofs.Include.Loaded

/-!
# Loaded graphs

A loaded graph is the part of all files that can be reached from the root, with each
canonical path once and every include statement accounted for.
-/

namespace TdSyntax

namespace IncludeSite

theorem mem_ofFiles {files : List SourceFile} {file : SourceFile} {number : Nat}
    (h : files[number]? = some file) {directive : IncludeDirective}
    (hdirective : directive ∈ file.directives) :
    (⟨number, file, directive⟩ : IncludeSite) ∈ ofFiles files :=
  List.mem_flatMap.2 ⟨(file, number), List.mem_zipIdx_iff_getElem?.2 h,
    List.mem_map_of_mem hdirective⟩

theorem filter_ofFile (file : SourceFile) (number : Nat) :
    (ofFile file number).filter (fun site => site.number == number) = ofFile file number := by
  apply List.filter_eq_self.2
  intro site hsite
  rw [number_of_mem hsite, beq_self_eq_true]

theorem filter_ofFile_of_ne (file : SourceFile) {number other : Nat} (h : other ≠ number) :
    (ofFile file other).filter (fun site => site.number == number) = [] := by
  apply List.filter_eq_nil_iff.2
  intro site hsite
  rw [number_of_mem hsite]
  simpa using h

theorem filter_ofFiles {files : List SourceFile} {file : SourceFile} {number : Nat}
    (h : files[number]? = some file) :
    (ofFiles files).filter (fun site => site.number == number) = ofFile file number := by
  induction files using List.reverseRecOn with
  | nil => cases h
  | append_singleton files last ih =>
      rw [ofFiles_append, List.filter_append]
      rcases Nat.lt_trichotomy number files.length with hlt | rfl | hgt
      · rw [List.getElem?_append_left hlt] at h
        rw [ih h, filter_ofFile_of_ne last (by omega), List.append_nil]
      · rw [List.getElem?_concat_length, Option.some.injEq] at h
        have hnone : (ofFiles files).filter (fun site => site.number == files.length) = [] := by
          apply List.filter_eq_nil_iff.2
          intro site hsite
          have hlt := number_lt hsite
          simp only [beq_iff_eq]
          omega
        rw [hnone, List.nil_append, h, filter_ofFile]
      · rw [List.getElem?_eq_none (by simp; omega)] at h
        cases h

end IncludeSite

namespace Resolver

variable {resolver : Resolver Id} {files : List SourceFile} {site : IncludeSite}
  {inclusion : Inclusion}

def report? (resolver : Resolver Id) (site : IncludeSite) : Option (SourceFile × Diagnostic) :=
  match resolver.resolveAt site with
  | .error error => some (site.file, ⟨.unresolved error, site.directive.span⟩)
  | .ok _ => none

/-- A file is known for the one that a statement leads to. -/
structure Stands (resolver : Resolver Id) (files : List SourceFile) (target known : SourceFile) :
    Prop where
  mem : known ∈ files
  same : resolver.canonical known = resolver.canonical target

namespace Settles

theorem source_eq (h : resolver.Settles files site inclusion) : inclusion.source = site.number := by
  cases h <;> rfl

theorem reports (h : resolver.Settles files site inclusion) :
    Option.Rel Eq (resolver.report? site)
      (inclusion.diagnostic?.bind fun diagnostic => some (site.file, diagnostic)) := by
  cases h with
  | failed h => rw [report?, h]; exact .some rfl
  | reached isNew h hknown hsame => rw [report?, h]; exact .none

theorem stands (h : resolver.Settles files site inclusion) :
    Option.Rel (resolver.Stands files) (resolver.target? site)
      (inclusion.target?.bind (files[·]?)) := by
  cases h with
  | failed h => rw [target?, h]; exact .none
  | reached isNew h hknown hsame =>
      rw [target?_eq_some.2 h, Inclusion.target?, Option.bind_some, hknown]
      exact .some ⟨List.mem_of_getElem? hknown, hsame⟩

end Settles

end Resolver

namespace IncludeGraph

open Resolver

/-- One canonical path leads to another in a graph: the file with the first path includes
a file with the second. -/
def Leads (graph : IncludeGraph) (resolver : Resolver Id) (first second : List PathComponent) :
    Prop :=
  ∃ file ∈ graph.files, ∃ target, resolver.Includes file target ∧
    resolver.canonical file = first ∧ resolver.canonical target = second

/-- What can be reached from a root in so many steps or fewer. -/
inductive Within (graph : IncludeGraph) (resolver : Resolver Id) (root : SourceFile) :
    Nat → List PathComponent → Prop
  | root (steps : Nat) : Within graph resolver root steps (resolver.canonical root)
  | step {steps : Nat} {first second : List PathComponent}
      (h : Within graph resolver root steps first) (hleads : graph.Leads resolver first second) :
      Within graph resolver root (steps + 1) second

/-- A graph is what can be reached from a root. -/
structure Explores (graph : IncludeGraph) (resolver : Resolver Id) (root : SourceFile) :
    Prop where
  start : graph.root = root
  distinct : (graph.files.map resolver.canonical).Nodup
  /-- The paths of the files are those to which the statements of the files lead. -/
  connected : ∀ path, path ∈ graph.files.map resolver.canonical ↔
    Relation.ReflTransGen (graph.Leads resolver) (resolver.canonical root) path
  reachable : ∀ path, path ∈ graph.files.map resolver.canonical ↔ path ∈ resolver.reachable root
  order : graph.files =
    resolver.firsts (root :: (IncludeSite.ofFiles graph.files).filterMap resolver.target?)
  discovered : ∀ number file, graph.files[number + 1]? = some file →
    ∃ site ∈ IncludeSite.ofFiles graph.files, site.number ≤ number ∧
      resolver.target? site = some file
  /-- Breadth comes first: no file stands behind one that takes more steps to reach. -/
  nearest : ∀ (earlier later : Nat) first second, earlier ≤ later →
    graph.files[earlier]? = some first → graph.files[later]? = some second →
      ∀ steps, graph.Within resolver root steps (resolver.canonical second) →
        graph.Within resolver root steps (resolver.canonical first)
  inclusions : List.Forall₂ (resolver.Settles graph.files) (IncludeSite.ofFiles graph.files)
    graph.inclusions
  includedBy : ∀ number file, graph.files[number]? = some file →
    List.Forall₂ (resolver.Stands graph.files)
      ((IncludeSite.ofFile file number).filterMap resolver.target?) (graph.includedBy number)
  unresolved : graph.unresolved = (IncludeSite.ofFiles graph.files).filterMap resolver.report?
  statements : ∀ file ∈ graph.files, ∃ parse, Parse.ofText file.text = .ok parse ∧
    List.Forall₂ IncludeDirective.Names file.directives parse.root.includePaths

variable {resolver : Resolver Id} {graph : IncludeGraph} {root file : SourceFile} {number : Nat}

theorem includedBy_of_settles (h : List.Forall₂ (resolver.Settles graph.files)
    (IncludeSite.ofFiles graph.files) graph.inclusions)
    (hfile : graph.files[number]? = some file) :
    List.Forall₂ (resolver.Stands graph.files)
      ((IncludeSite.ofFile file number).filterMap resolver.target?) (graph.includedBy number) := by
  rw [includedBy, List.filterMap_filterMap, ← IncludeSite.filter_ofFiles hfile]
  apply List.rel_filterMap (R := resolver.Settles graph.files)
  · intro site inclusion hsettles
    exact hsettles.stands
  · refine List.rel_filter ?_ h
    intro site inclusion hsettles
    simp only [hsettles.source_eq]

theorem unresolved_of_settles (h : List.Forall₂ (resolver.Settles graph.files)
    (IncludeSite.ofFiles graph.files) graph.inclusions) :
    graph.unresolved = (IncludeSite.ofFiles graph.files).filterMap resolver.report? := by
  have hfiles : ∀ site ∈ IncludeSite.ofFiles graph.files,
      graph.files[site.number]? = some site.file := fun site hsite =>
    (IncludeSite.file_of_mem hsite).1
  have hboth := (List.forall₂_and_left _ _).2 ⟨hfiles, h⟩
  rw [unresolved, eq_comm, ← List.forall₂_eq_eq_eq]
  refine List.rel_filterMap ?_ hboth
  rintro site inclusion ⟨hfile, hsettles⟩
  have hsource : graph.file? inclusion.source = some site.file := by
    rw [file?, hsettles.source_eq, hfile]
  simpa [hsource] using hsettles.reports

theorem settles_of_after {count : Nat} {loading : Loading}
    (h : Loading.After resolver root count loading)
    (hall : (IncludeSite.ofFiles (resolver.found root count)).length ≤ count) :
    List.Forall₂ (resolver.Settles loading.graph.files) (IncludeSite.ofFiles loading.graph.files)
      loading.graph.inclusions := by
  have hinclusions := h.inclusions
  rwa [List.take_of_length_le hall, ← h.files] at hinclusions

theorem mem_of_leads (h : List.Forall₂ (resolver.Settles graph.files)
    (IncludeSite.ofFiles graph.files) graph.inclusions) {first second : List PathComponent}
    (hleads : graph.Leads resolver first second) :
    second ∈ graph.files.map resolver.canonical := by
  obtain ⟨file, hfile, target, ⟨directive, hdirective, hresolve⟩, -, rfl⟩ := hleads
  obtain ⟨number, hnumber⟩ := List.mem_iff_getElem?.1 hfile
  have hsite := IncludeSite.mem_ofFiles hnumber hdirective
  obtain ⟨inclusion, -, hsettles⟩ := exists_related h.flip hsite
  have htarget : resolver.target? ⟨number, file, directive⟩ = some target :=
    target?_eq_some.2 hresolve
  have hstands := hsettles.stands
  rw [htarget] at hstands
  generalize inclusion.target?.bind (graph.files[·]?) = known? at hstands
  cases hstands with
  | some hknown => exact List.mem_map.2 ⟨_, hknown.mem, hknown.same⟩

theorem connected_of_found {count : Nat} (hfiles : graph.files = resolver.found root count)
    (hfile : file ∈ graph.files) :
    Relation.ReflTransGen (graph.Leads resolver) (resolver.canonical root)
      (resolver.canonical file) := by
  rw [hfiles] at hfile
  refine (includes_found hfile).lift resolver.canonical ?_
  rintro first second ⟨hmem, hincludes⟩
  exact ⟨first, hfiles ▸ hmem, second, hincludes, rfl, rfl⟩

theorem within_of_found {count : Nat} (hfiles : graph.files = resolver.found root count)
    (hall : (IncludeSite.ofFiles (resolver.found root count)).length ≤ count) {steps : Nat}
    {earlier later : Nat} (hle : earlier ≤ later) {first second : SourceFile}
    (hfirst : graph.files[earlier]? = some first) (hsecond : graph.files[later]? = some second)
    (hwithin : graph.Within resolver root steps (resolver.canonical second)) :
    graph.Within resolver root steps (resolver.canonical first) := by
  obtain ⟨path, hpath⟩ : ∃ path, path = resolver.canonical second := ⟨_, rfl⟩
  rw [← hpath] at hwithin
  rw [hfiles] at hfirst hsecond
  induction hwithin generalizing earlier later first second with
  | root steps =>
      have hknown : resolver.canonical second ∈ (resolver.found root 0).map resolver.canonical :=
        List.mem_singleton.2 hpath.symm
      have hlater : later < 1 := lt_length_of_mem (Nat.zero_le count) hsecond hknown
      obtain rfl : earlier = 0 := by omega
      obtain rfl := Option.some.inj ((found_head root count).symm.trans hfirst)
      exact .root steps
  | @step steps _ _ _ hleads ih =>
      cases earlier with
      | zero =>
          obtain rfl := Option.some.inj ((found_head root count).symm.trans hfirst)
          exact .root (steps + 1)
      | succ earlier =>
          obtain ⟨source, hsource, target, ⟨directive, hdirective, hresolve⟩, hcanonical, htarget⟩ :=
            hleads
          rw [hfiles] at hsource
          obtain ⟨number, hnumber⟩ := List.mem_iff_getElem?.1 hsource
          -- the file in front is included by one that is not behind the source
          obtain ⟨site, hmem, hbefore, hfound⟩ := found_before hall hfirst hsecond hle
            (IncludeSite.mem_ofFiles hnumber hdirective) (target?_eq_some.2 hresolve)
            (htarget.trans hpath)
          have hplace := (IncludeSite.file_of_mem hmem).1
          refine .step (ih hbefore hplace hnumber hcanonical.symm) ?_
          exact ⟨site.file, hfiles ▸ List.mem_of_getElem? hplace, first,
            includes_of_target hmem hfound, rfl, rfl⟩

theorem explores_of_after {count : Nat} {loading : Loading}
    (h : Loading.After resolver root count loading)
    (hall : (IncludeSite.ofFiles (resolver.found root count)).length ≤ count) :
    loading.graph.Explores resolver root := by
  have hsettles := settles_of_after h hall
  have hhead : loading.graph.files[0]? = some root := by rw [h.files, found_head]
  constructor
  case start => exact Option.some.inj hhead
  case distinct =>
    rw [h.files]
    exact nodup_found root count
  case connected =>
    intro path
    constructor
    · intro hpath
      obtain ⟨file, hfile, rfl⟩ := List.mem_map.1 hpath
      exact connected_of_found h.files hfile
    · intro hreached
      cases hreached with
      | refl => exact List.mem_map_of_mem (List.mem_of_getElem? hhead)
      | tail _ hleads => exact mem_of_leads hsettles hleads
  case reachable =>
    intro path
    rw [h.files, mem_reachable_iff hall]
  case order =>
    rw [h.files]
    exact (firsts_of_all_followed hall).symm
  case discovered =>
    intro number file hfile
    rw [h.files] at hfile ⊢
    exact target_of_found hfile
  case nearest =>
    intro earlier later first second hle hfirst hsecond steps hwithin
    exact within_of_found h.files hall hle hfirst hsecond hwithin
  case inclusions => exact hsettles
  case includedBy => exact fun number file => includedBy_of_settles hsettles
  case unresolved => exact unresolved_of_settles hsettles
  case statements =>
    intro file _
    obtain ⟨parse, directives, hparse, hdirectives, hnames⟩ := file.includeDirectives_eq_ok
    rw [file.includeDirectives_eq, Except.ok.injEq] at hdirectives
    exact ⟨parse, hparse, hdirectives ▸ hnames⟩

theorem exists_loaded {count : Nat}
    (hall : (IncludeSite.ofFiles (resolver.found root count)).length ≤ count) :
    ∃ loading, Loading.After resolver root count loading ∧
      ∀ limit, (resolver.found root count).length ≤ limit + 1 →
        (IncludeGraph.load resolver limit root : Except Fault IncludeGraph) =
          .ok loading.graph := by
  obtain ⟨loading, hroot, hafter⟩ := Loading.After.ofRoot resolver root
  obtain ⟨final, hfinal, hresult⟩ := hafter.run count (by rwa [Nat.zero_add])
  rw [Nat.zero_add] at hfinal hresult
  refine ⟨final, hfinal, fun limit hlimit => ?_⟩
  have hload : (IncludeGraph.load resolver limit root : Except Fault IncludeGraph) =
      loading.result resolver limit := by
    rw [IncludeGraph.load]
    simp only [Loading.lift_bind, hroot, Loading.ok_bind]
    rfl
  rw [hload]
  exact hresult limit hlimit

theorem exists_followed (hfinite : (resolver.reachable root).Finite) :
    ∃ count loading, Loading.After resolver root count loading ∧
      (IncludeSite.ofFiles (resolver.found root count)).length ≤ count ∧
      ∀ limit, (resolver.reachable root).ncard ≤ limit + 1 →
        (IncludeGraph.load resolver limit root : Except Fault IncludeGraph) =
          .ok loading.graph := by
  obtain ⟨count, hall⟩ := exists_all_followed hfinite
  obtain ⟨loading, hafter, hload⟩ := exists_loaded hall
  exact ⟨count, loading, hafter, hall, fun limit hlimit =>
    hload limit ((length_found_le hfinite count).trans hlimit)⟩

end IncludeGraph

namespace NameTable

variable {table : NameTable}

def sourceFiles (table : NameTable) : List SourceFile :=
  table.files.map fun (name, text) => ⟨⟨name⟩, text⟩

theorem mem_sourceFiles_of_resolve {name : Text} {file : SourceFile}
    (h : table.resolve name = .ok file) : file ∈ table.sourceFiles := by
  rw [resolve] at h
  split at h
  · rename_i text hlookup
    obtain rfl := Except.ok.inj h
    obtain ⟨before, behind, hfiles, -⟩ := List.lookup_eq_some_iff.1 hlookup
    refine List.mem_map.2 ⟨(name, text), ?_, rfl⟩
    rw [hfiles]
    exact List.mem_append_right _ List.mem_cons_self
  · cases h

theorem reachable_subset_files (table : NameTable) (root : SourceFile) :
    table.resolver.reachable root ⊆
      {path | path ∈ (root :: table.sourceFiles).map table.resolver.canonical} := by
  intro path hpath
  obtain ⟨file, hreached, rfl⟩ := table.resolver.reachable_subset root hpath
  refine List.mem_map_of_mem ?_
  cases hreached with
  | refl => exact List.mem_cons_self
  | tail _ hincludes =>
      obtain ⟨directive, -, hresolve⟩ := hincludes
      exact List.mem_cons_of_mem _ (mem_sourceFiles_of_resolve hresolve)

theorem finite_reachable (table : NameTable) (root : SourceFile) :
    (table.resolver.reachable root).Finite :=
  (List.finite_toSet _).subset (table.reachable_subset_files root)

theorem ncard_reachable_le (table : NameTable) (root : SourceFile) :
    (table.resolver.reachable root).ncard ≤ table.files.length + 1 := by
  have hsubset := table.reachable_subset_files root
  rw [← List.coe_toFinset] at hsubset
  have hcard := Set.ncard_le_ncard hsubset
  rw [Set.ncard_coe_finset] at hcard
  have hlength := List.toFinset_card_le ((root :: table.sourceFiles).map table.resolver.canonical)
  rw [List.length_map, List.length_cons, sourceFiles, List.length_map] at hlength
  exact hcard.trans hlength

end NameTable

namespace IncludeGraph

open Resolver

/-- From every root from which only finitely many paths can be reached, loading gives the
graph of what can be reached: each path once, in the order of discovery, with one entry for
each include statement.  It is the same graph for every limit that is high enough. -/
theorem load_explores (resolver : Resolver Id) (root : SourceFile)
    (hfinite : (resolver.reachable root).Finite) :
    ∃ graph : IncludeGraph, graph.Explores resolver root ∧
      ∀ limit, (resolver.reachable root).ncard ≤ limit + 1 →
        (IncludeGraph.load resolver limit root : Except Fault IncludeGraph) = .ok graph := by
  obtain ⟨count, loading, hafter, hall, hload⟩ := exists_followed hfinite
  exact ⟨loading.graph, explores_of_after hafter hall, hload⟩

/-- The first file includes itself by another spelling, and a file that includes it. -/
def cyclicTable : NameTable where
  files := [("a.td".toList, "include \"b.td\" include \".//a.td\" include \"c.td\"".toList),
    (".//a.td".toList, []),
    ("b.td".toList, "class B \x7b include \"a.td\" \x7d include \"b.td\" include \"a.td\"".toList)]
  aliases := [(".//a.td".toList, "a.td".toList)]

def cyclicRoot : SourceFile :=
  ⟨⟨"a.td".toList⟩, "include \"b.td\" include \".//a.td\" include \"c.td\"".toList⟩

theorem load_explores_cyclic : (cyclicTable.resolver.reachable cyclicRoot).Finite ∧
    ∃ graph : IncludeGraph, graph.Explores cyclicTable.resolver cyclicRoot ∧
      cyclicTable.load cyclicRoot = .ok graph := by
  have hfinite := cyclicTable.finite_reachable cyclicRoot
  obtain ⟨graph, hgraph, hload⟩ := load_explores cyclicTable.resolver cyclicRoot hfinite
  exact ⟨hfinite, graph, hgraph, hload _ (cyclicTable.ncard_reachable_le cyclicRoot)⟩

end IncludeGraph

end TdSyntax
