import TdSyntax.Proofs.Include.Explored

/-!
# Checked graphs

Something is wrong with a file if its parse has an error, or if something that it includes
cannot be found.  The findings in a graph have an error exactly if something is wrong with
one of its files.  A file is in a graph by one spelling of its path; if all spellings of a
path stand for the same file, nothing that is wrong escapes.
-/

namespace TdSyntax

namespace SourceFile

def diagnostics (file : SourceFile) : List Diagnostic := file.check.toOption.getD []

theorem check_eq (file : SourceFile) : file.check = .ok file.diagnostics := by
  obtain ⟨parse, hparse⟩ := Parse.exists_ofText file.text
  have hcheck : file.check = .ok parse.diagnostics := by
    rw [check, SourceFile.parse, hparse]
    rfl
  rw [diagnostics, hcheck]
  rfl

theorem parse_eq (file : SourceFile) :
    ∃ parse, file.parse = .ok parse ∧ parse.diagnostics = file.diagnostics := by
  obtain ⟨parse, hparse⟩ := Parse.exists_ofText file.text
  refine ⟨parse, hparse, ?_⟩
  rw [diagnostics, check, SourceFile.parse, hparse]
  rfl

theorem directives_congr {first second : SourceFile} (h : first.text = second.text) :
    first.directives = second.directives := by
  rw [directives, directives, includeDirectives, includeDirectives, parse, parse, h]

end SourceFile

namespace Resolver

variable {resolver : Resolver Id} {root first second file : SourceFile}

/-- The parse of a file has an error, or something that the file includes cannot be
resolved. -/
inductive Broken (resolver : Resolver Id) (file : SourceFile) : Prop where
  | parse {parse : Parse} {diagnostic : Diagnostic} (hparse : file.parse = .ok parse)
      (hmem : diagnostic ∈ parse.diagnostics) (herror : diagnostic.isError = true) :
      Broken resolver file
  | inclusion {directive : IncludeDirective} {error : ResolveError}
      (hmem : directive ∈ file.directives)
      (hfail : resolver.resolve file.path directive.name = .error error) : Broken resolver file

def canonicalAt (resolver : Resolver Id) (file : SourceFile) (name : Text) :
    Option (List PathComponent) :=
  (Except.toOption (resolver.resolve file.path name)).map resolver.canonical

structure Agree (resolver : Resolver Id) (first second : SourceFile) : Prop where
  text : first.text = second.text
  resolve : ∀ directive ∈ first.directives,
    resolver.canonicalAt first directive.name = resolver.canonicalAt second directive.name

/-- Of the files that can be reached from a root those with one canonical path agree. -/
def Faithful (resolver : Resolver Id) (root : SourceFile) : Prop :=
  ∀ first second, Relation.ReflTransGen resolver.Includes root first →
    Relation.ReflTransGen resolver.Includes root second →
      resolver.canonical first = resolver.canonical second → resolver.Agree first second

theorem canonicalAt_eq_some {name : Text} {path : List PathComponent} :
    resolver.canonicalAt file name = some path ↔
      ∃ target, resolver.resolve file.path name = .ok target ∧
        resolver.canonical target = path := by
  unfold canonicalAt
  cases hresolve : resolver.resolve file.path name with
  | error error => simp [Except.toOption]
  | ok target =>
      constructor
      · intro h
        exact ⟨target, rfl, Option.some.inj h⟩
      · rintro ⟨other, hother, rfl⟩
        obtain rfl := Except.ok.inj hother
        rfl

theorem canonicalAt_eq_none {name : Text} :
    resolver.canonicalAt file name = none ↔
      ∃ error, resolver.resolve file.path name = .error error := by
  unfold canonicalAt
  cases hresolve : resolver.resolve file.path name with
  | error error => simp [Except.toOption]
  | ok target => simp [Except.toOption]

def isBroken (resolver : Resolver Id) (file : SourceFile) : Bool :=
  file.diagnostics.any Diagnostic.isError ||
    file.directives.any fun directive => (resolver.canonicalAt file directive.name).isNone

theorem isBroken_iff : resolver.isBroken file = true ↔ resolver.Broken file := by
  rw [isBroken, Bool.or_eq_true, List.any_eq_true, List.any_eq_true]
  obtain ⟨parse, hparse, hdiagnostics⟩ := file.parse_eq
  constructor
  · rintro (⟨diagnostic, hmem, herror⟩ | ⟨directive, hmem, hnone⟩)
    · exact .parse hparse (hdiagnostics ▸ hmem) herror
    · obtain ⟨error, hfail⟩ := canonicalAt_eq_none.1 (Option.isNone_iff_eq_none.1 hnone)
      exact .inclusion hmem hfail
  · intro hbroken
    cases hbroken with
    | @parse other diagnostic hother hmem herror =>
        obtain rfl := Except.ok.inj (hparse.symm.trans hother)
        exact .inl ⟨diagnostic, hdiagnostics ▸ hmem, herror⟩
    | @inclusion directive error hmem hfail =>
        have hnone := canonicalAt_eq_none.2 ⟨error, hfail⟩
        exact .inr ⟨directive, hmem, Option.isNone_iff_eq_none.2 hnone⟩

theorem not_broken_of_any {files : List SourceFile} (h : files.any resolver.isBroken = false)
    (hfile : file ∈ files) : ¬ resolver.Broken file := by
  rw [List.any_eq_false] at h
  intro hbroken
  exact h file hfile (isBroken_iff.2 hbroken)

namespace Agree

theorem broken (h : resolver.Agree first second) (hbroken : resolver.Broken first) :
    resolver.Broken second := by
  cases hbroken with
  | parse hparse hmem herror =>
      rw [SourceFile.parse, h.text] at hparse
      exact .parse hparse hmem herror
  | inclusion hmem hfail =>
      have hnone := canonicalAt_eq_none.2 ⟨_, hfail⟩
      rw [h.resolve _ hmem] at hnone
      obtain ⟨error, hother⟩ := canonicalAt_eq_none.1 hnone
      exact .inclusion (SourceFile.directives_congr h.text ▸ hmem) hother

theorem includes (h : resolver.Agree first second) (hincludes : resolver.Includes first file) :
    ∃ target, resolver.Includes second target ∧
      resolver.canonical target = resolver.canonical file := by
  obtain ⟨directive, hdirective, hresolve⟩ := hincludes
  have hsome := canonicalAt_eq_some.2 ⟨file, hresolve, rfl⟩
  rw [h.resolve directive hdirective] at hsome
  obtain ⟨target, htarget, hsame⟩ := canonicalAt_eq_some.1 hsome
  exact ⟨target, ⟨directive, SourceFile.directives_congr h.text ▸ hdirective, htarget⟩, hsame⟩

end Agree

end Resolver

namespace IncludeGraph

open Resolver

variable {resolver : Resolver Id} {graph : IncludeGraph} {root file target : SourceFile}

namespace Explores

theorem root_mem (h : graph.Explores resolver root) : root ∈ graph.files :=
  h.start ▸ List.mem_cons_self

theorem included (h : graph.Explores resolver root) (hfile : file ∈ graph.files) :
    Relation.ReflTransGen resolver.Includes root file := by
  obtain ⟨number, hnumber⟩ := List.mem_iff_getElem?.1 hfile
  clear hfile
  induction number using Nat.strong_induction_on generalizing file with
  | _ number ih =>
      cases number with
      | zero =>
          obtain rfl := Option.some.inj hnumber
          rw [h.start]
      | succ number =>
          obtain ⟨site, hmem, hbefore, htarget⟩ := h.discovered number file hnumber
          have hsource := (IncludeSite.file_of_mem hmem).1
          exact (ih site.number (by omega) hsource).tail (includes_of_target hmem htarget)

theorem closed (h : graph.Explores resolver root) (hfile : file ∈ graph.files)
    (hincludes : resolver.Includes file target) :
    ∃ known ∈ graph.files, resolver.canonical known = resolver.canonical target :=
  List.mem_map.1 (mem_of_leads h.inclusions ⟨file, hfile, target, hincludes, rfl, rfl⟩)

theorem covers (h : graph.Explores resolver root) (hfaithful : resolver.Faithful root)
    (hreached : Relation.ReflTransGen resolver.Includes root file) :
    ∃ known ∈ graph.files, resolver.Agree file known := by
  suffices hknown : ∃ known ∈ graph.files, resolver.canonical known = resolver.canonical file by
    obtain ⟨known, hmem, hsame⟩ := hknown
    exact ⟨known, hmem, hfaithful file known hreached (h.included hmem) hsame.symm⟩
  induction hreached with
  | refl => exact ⟨root, h.root_mem, rfl⟩
  | @tail middle last hmiddle hincludes ih =>
      obtain ⟨known, hmem, hsame⟩ := ih
      have hagree := hfaithful middle known hmiddle (h.included hmem) hsame.symm
      obtain ⟨target, htarget, hlast⟩ := hagree.includes hincludes
      obtain ⟨other, hother, hcanonical⟩ := h.closed hmem htarget
      exact ⟨other, hother, hcanonical.trans hlast⟩

end Explores

def findings (graph : IncludeGraph) : List (SourceFile × Diagnostic) :=
  (graph.files.flatMap fun file => file.diagnostics.map fun diagnostic => (file, diagnostic)) ++
    graph.unresolved

theorem check_eq (graph : IncludeGraph) : graph.check = .ok graph.findings := by
  have hreports := List.mapM_pure (m := Except Fault) (l := graph.files)
    (f := fun file => file.diagnostics.map fun diagnostic => (file, diagnostic))
  unfold check
  simp only [SourceFile.check_eq]
  rw [findings, List.flatMap_def]
  exact congrArg (Bind.bind · fun reports => pure (reports.flatten ++ graph.unresolved)) hreports

theorem isError_of_report {site : IncludeSite} {finding : SourceFile × Diagnostic}
    (h : resolver.report? site = some finding) : finding.2.isError = true := by
  unfold report? at h
  split at h
  · obtain rfl := Option.some.inj h
    rfl
  · cases h

theorem mem_findings (h : graph.Explores resolver root) {finding : SourceFile × Diagnostic} :
    finding ∈ graph.findings ↔
      (finding.1 ∈ graph.files ∧ finding.2 ∈ finding.1.diagnostics) ∨
        ∃ site ∈ IncludeSite.ofFiles graph.files, resolver.report? site = some finding := by
  obtain ⟨file, diagnostic⟩ := finding
  rw [findings, h.unresolved]
  simp

/-- A graph has an error exactly if something is wrong with one of its files. -/
theorem any_isError_findings (h : graph.Explores resolver root) :
    (graph.findings.any fun finding => finding.2.isError) = true ↔
      ∃ file ∈ graph.files, resolver.Broken file := by
  rw [List.any_eq_true]
  constructor
  · rintro ⟨⟨file, diagnostic⟩, hfinding, herror⟩
    rcases (mem_findings h).1 hfinding with ⟨hfile, hdiagnostic⟩ | ⟨site, hsite, hreport⟩
    · obtain ⟨parse, hparse, hdiagnostics⟩ := file.parse_eq
      exact ⟨file, hfile, .parse hparse (hdiagnostics ▸ hdiagnostic) herror⟩
    · obtain ⟨hfile, hdirective⟩ := IncludeSite.file_of_mem hsite
      cases hresolve : resolver.resolveAt site with
      | error error =>
          exact ⟨site.file, List.mem_of_getElem? hfile, .inclusion hdirective hresolve⟩
      | ok target =>
          rw [report?, hresolve] at hreport
          cases hreport
  · rintro ⟨file, hfile, hbroken⟩
    cases hbroken with
    | @parse parse diagnostic hparse hmem herror =>
        obtain ⟨other, hother, hdiagnostics⟩ := file.parse_eq
        obtain rfl := Except.ok.inj (hparse.symm.trans hother)
        exact ⟨(file, diagnostic), (mem_findings h).2 (.inl ⟨hfile, hdiagnostics ▸ hmem⟩), herror⟩
    | @inclusion directive error hmem hfail =>
        obtain ⟨number, hnumber⟩ := List.mem_iff_getElem?.1 hfile
        have hreport : resolver.report? ⟨number, file, directive⟩ =
            some (file, ⟨.unresolved error, directive.span⟩) := by
          rw [report?, resolveAt, hfail]
        exact ⟨_, (mem_findings h).2 (.inr ⟨_, IncludeSite.mem_ofFiles hnumber hmem, hreport⟩),
          isError_of_report hreport⟩

end IncludeGraph

end TdSyntax
