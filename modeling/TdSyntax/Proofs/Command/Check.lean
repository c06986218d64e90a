import Mathlib
import TdSyntax.Command.Run
import TdSyntax.Proofs.Include.Checked
import TdSyntax.Proofs.Include.Readable

/-!
# Checks

A check of a file that can be read comes to an end if only finitely many files can be
reached from it.  It takes each of these by the path under which it is found first, fails
exactly if something is wrong with one of them there, and reports what is wrong with each
of them once.  Under another path the same file may include something else, or nothing.
-/

namespace TdSyntax.Command

section

variable {access : FileAccess Id} {search : IncludeSearch} {path : Path} {text : Text}
  {verbosity : Nat} {graph : IncludeGraph} {resolver : Resolver Id} {root : SourceFile}

/-- What is told of the files of a graph. -/
structure Outcome.Judges (outcome : Outcome) (resolver : Resolver Id) (root : SourceFile)
    (graph : IncludeGraph) : Prop where
  failure : outcome.status = .failure ↔ ∃ file ∈ graph.files, resolver.Broken file
  success : outcome.status = .success ↔ ∀ file ∈ graph.files, ¬ resolver.Broken file
  included : outcome.status = .failure →
    ∃ file, Relation.ReflTransGen resolver.Includes root file ∧ resolver.Broken file
  /-- If files with one path agree, nothing that is wrong with an included file escapes. -/
  faithful : resolver.Faithful root → (outcome.status = .failure ↔
    ∃ file, Relation.ReflTransGen resolver.Includes root file ∧ resolver.Broken file)
  parses : ∀ file ∈ graph.files,
    ∃ parse, file.parse = .ok parse ∧ parse.diagnostics = file.diagnostics
  reports : outcome.reports =
    (graph.files.flatMap fun file => file.diagnostics.map (.diagnostic file)) ++
      ((IncludeSite.ofFiles graph.files).filterMap resolver.report?).map
        fun (file, diagnostic) => .diagnostic file diagnostic

theorem withFile_eq (hread : access.read path = .ok text)
    (use : SourceFile → ExceptT Fault Id Outcome) :
    withFile access path use = use ⟨path, text⟩ := by
  rw [withFile, Loading.lift_bind, hread]

theorem reports_findings (h : graph.Explores resolver root) :
    graph.findings.map (fun (file, diagnostic) => Report.diagnostic file diagnostic) =
      (graph.files.flatMap fun file => file.diagnostics.map (.diagnostic file)) ++
        ((IncludeSite.ofFiles graph.files).filterMap resolver.report?).map
          fun (file, diagnostic) => .diagnostic file diagnostic := by
  rw [IncludeGraph.findings, h.unresolved, List.map_append, List.map_flatMap]
  simp only [List.map_map]
  rfl

theorem checked_eq (graph : IncludeGraph) (verbosity : Nat) :
    ∃ outcome, Outcome.checked graph verbosity = .ok outcome ∧
      (outcome.status = .failure ↔
        (graph.findings.any fun finding => finding.2.isError) = true) ∧
      (outcome.status = .success ↔ outcome.status ≠ .failure) ∧
      outcome.reports =
        graph.findings.map fun (file, diagnostic) => .diagnostic file diagnostic := by
  refine ⟨_, by rw [Outcome.checked, graph.check_eq]; rfl, ?_, ?_, rfl⟩
  all_goals
    generalize (graph.findings.any fun finding => finding.2.isError) = failed
    cases failed <;> simp

theorem exists_judged (h : graph.Explores resolver root) (verbosity : Nat) :
    ∃ outcome, Outcome.checked graph verbosity = .ok outcome ∧
      outcome.Judges resolver root graph := by
  obtain ⟨outcome, hchecked, hstatus, hsuccess, hreports⟩ := checked_eq graph verbosity
  have hfailure := hstatus.trans (IncludeGraph.any_isError_findings h)
  have hincluded (hfailed : outcome.status = .failure) :
      ∃ file, Relation.ReflTransGen resolver.Includes root file ∧ resolver.Broken file := by
    obtain ⟨file, hfile, hbroken⟩ := hfailure.1 hfailed
    exact ⟨file, h.included hfile, hbroken⟩
  refine ⟨outcome, hchecked, ?_⟩
  constructor
  case failure => exact hfailure
  case success =>
    rw [hsuccess, Ne, hfailure]
    simp only [not_exists, not_and]
  case included => exact hincluded
  case faithful =>
    intro hfaithful
    refine ⟨hincluded, ?_⟩
    rintro ⟨file, hreached, hbroken⟩
    obtain ⟨known, hknown, hagree⟩ := h.covers hfaithful hreached
    exact hfailure.2 ⟨known, hknown, hagree.broken hbroken⟩
  case parses => exact fun file _ => file.parse_eq
  case reports => rw [hreports, reports_findings h]

theorem run_eq_of_load {arguments : List Text} {limit : Nat}
    (hcheck : Invocation.ofArguments arguments = .ok ⟨.check path search, verbosity⟩)
    (hread : access.read path = .ok text)
    (hload : (IncludeGraph.load (search.resolver access) limit ⟨path, text⟩ :
      Except Fault IncludeGraph) = .ok graph) :
    (run access limit arguments : Except Fault Outcome) = Outcome.checked graph verbosity := by
  rw [run, hcheck]
  simp only [Invocation.run, withFile_eq hread]
  rw [hload]
  rfl

/-- Whatever arguments ask for the check of a file that can be read: if only finitely many
paths can be reached from the file, the check explores them and fails exactly if something
is wrong with one of the files as they are found first.  The outcome is the same for every
limit that is high enough. -/
theorem run_check {arguments : List Text}
    (hcheck : Invocation.ofArguments arguments = .ok ⟨.check path search, verbosity⟩)
    (hread : access.read path = .ok text)
    (hfinite : ((search.resolver access).reachable ⟨path, text⟩).Finite) :
    ∃ (graph : IncludeGraph) (outcome : Outcome),
      graph.Explores (search.resolver access) ⟨path, text⟩ ∧
      outcome.Judges (search.resolver access) ⟨path, text⟩ graph ∧
      ∀ limit, ((search.resolver access).reachable ⟨path, text⟩).ncard ≤ limit + 1 →
        (run access limit arguments : Except Fault Outcome) = .ok outcome := by
  obtain ⟨count, loading, hafter, hall, hload⟩ := IncludeGraph.exists_followed hfinite
  have hexplores := IncludeGraph.explores_of_after hafter hall
  obtain ⟨outcome, hchecked, hjudges⟩ := exists_judged hexplores verbosity
  refine ⟨loading.graph, outcome, hexplores, hjudges, fun limit hlimit => ?_⟩
  rw [run_eq_of_load hcheck hread (hload limit hlimit)]
  exact hchecked

end

theorem ofArguments_check : Invocation.ofArguments ["check".toList, "main.td".toList] =
    .ok ⟨.check (.ofString "main.td") ⟨[]⟩, 0⟩ := by rfl

def linkingText : Text := "include \"part.td\" include \"sub/link.td\"".toList

def warnedText : Text := "defvar x = y\x7b1 -5\x7d;".toList

/-- One file includes another by its own path and through a link. -/
def linkedTree : FileTree where
  home := Place.ofTop [("main.td".toList, .file (some linkingText)),
    ("part.td".toList, .file (some warnedText)),
    ("sub".toList, .directory [("link.td".toList, .link (.ofString "../part.td"))])]

namespace linkedTree

def search : IncludeSearch := ⟨[]⟩

def resolver : Resolver Id := search.resolver linkedTree.access

def root : SourceFile := ⟨.ofString "main.td", linkingText⟩

def parts : List SourceFile :=
  [⟨.ofString "part.td", warnedText⟩, ⟨.ofString "sub/link.td", warnedText⟩]

theorem evaluated :
    linkedTree.access.read root.path = .ok root.text ∧
    root.directives.map IncludeDirective.name = ["part.td".toList, "sub/link.td".toList] ∧
    parts.map SourceFile.directives = [[], []] ∧
    ["part.td".toList, "sub/link.td".toList].map (resolver.resolve root.path) = parts.map .ok ∧
    (root :: parts).map resolver.canonical =
      [[.root, .named "main.td".toList], [.root, .named "part.td".toList],
        [.root, .named "part.td".toList]] ∧
    (root :: parts).any resolver.isBroken = false := by
  refine ⟨?_, ?_, ?_, ?_, ?_, ?_⟩ <;> cbv

theorem directives_eq_nil {file : SourceFile} (h : file ∈ parts) : file.directives = [] := by
  obtain ⟨-, -, hparts, -⟩ := evaluated
  have hmem := List.mem_map_of_mem (f := SourceFile.directives) h
  rw [hparts] at hmem
  simpa using hmem

theorem resolve_eq_ok {file : SourceFile} (h : file ∈ root :: parts)
    {directive : IncludeDirective} (hdirective : directive ∈ file.directives) :
    ∃ part ∈ parts, resolver.resolve file.path directive.name = .ok part := by
  obtain ⟨-, hnames, -, hresolve, -⟩ := evaluated
  rcases List.mem_cons.1 h with rfl | h
  · have hname := List.mem_map_of_mem (f := IncludeDirective.name) hdirective
    rw [hnames] at hname
    have hmem := List.mem_map_of_mem (f := resolver.resolve root.path) hname
    rw [hresolve] at hmem
    obtain ⟨part, hpart, heq⟩ := List.mem_map.1 hmem
    exact ⟨part, hpart, heq.symm⟩
  · rw [directives_eq_nil h] at hdirective
    cases hdirective

theorem mem_of_included {file : SourceFile}
    (h : Relation.ReflTransGen resolver.Includes root file) : file ∈ root :: parts := by
  induction h with
  | refl => exact List.mem_cons_self
  | tail _ hincludes ih =>
      obtain ⟨directive, hdirective, hresolve⟩ := hincludes
      obtain ⟨part, hpart, heq⟩ := resolve_eq_ok ih hdirective
      obtain rfl := Except.ok.inj (hresolve.symm.trans heq)
      exact List.mem_cons_of_mem _ hpart

theorem faithful : resolver.Faithful root := by
  intro first second hfirst hsecond hsame
  have hroot : ∀ file ∈ parts, resolver.canonical root ≠ resolver.canonical file := by
    obtain ⟨-, -, -, -, hfiles, -⟩ := evaluated
    rw [List.map_cons, List.cons.injEq] at hfiles
    intro file hfile heq
    have hmem := List.mem_map_of_mem (f := resolver.canonical) hfile
    rw [hfiles.2, ← heq, hfiles.1] at hmem
    revert hmem
    decide
  rcases List.mem_cons.1 (mem_of_included hfirst) with rfl | hfirst
  · rcases List.mem_cons.1 (mem_of_included hsecond) with rfl | hsecond
    · exact ⟨rfl, fun _ _ => rfl⟩
    · exact absurd hsame (hroot second hsecond)
  · rcases List.mem_cons.1 (mem_of_included hsecond) with rfl | hsecond
    · exact absurd hsame.symm (hroot first hfirst)
    · have htext : ∀ file ∈ parts, file.text = warnedText := by decide
      refine ⟨(htext first hfirst).trans (htext second hsecond).symm, ?_⟩
      intro directive hdirective
      rw [directives_eq_nil hfirst] at hdirective
      cases hdirective

end linkedTree

/-- A warning in a file that is included under two paths does not make a check fail. -/
theorem run_check_linked : linkedTree.resolver.Faithful linkedTree.root ∧
    ∃ outcome, linkedTree.run ["check".toList, "main.td".toList] = .ok outcome ∧
      outcome.status = .success := by
  obtain ⟨hread, -, -, -, -, hsound⟩ := linkedTree.evaluated
  obtain ⟨graph, outcome, hexplores, hjudges, hrun⟩ :=
    run_check ofArguments_check hread (FileTree.finite_reachable linkedTree.search hread)
  refine ⟨linkedTree.faithful, outcome, hrun _ ?_, hjudges.success.2 fun file hfile => ?_⟩
  · exact Nat.le_add_right_of_le (FileTree.ncard_reachable_le linkedTree.search hread)
  · exact Resolver.not_broken_of_any hsound
      (linkedTree.mem_of_included (hexplores.included hfile))

def dividedText : Text := "include \"a.td\" include \"sub/link.td\"".toList

def aheadText : Text := "include \"x.td\"".toList

/-- A file is included by its own path and then through a link in another directory, and
what it includes is only beside it. -/
def dividedTree : FileTree where
  home := Place.ofTop [("main.td".toList, .file (some dividedText)),
    ("a.td".toList, .file (some aheadText)), ("x.td".toList, .file (some "def X;".toList)),
    ("sub".toList, .directory [("link.td".toList, .link (.ofString "../a.td"))])]

namespace dividedTree

def search : IncludeSearch := ⟨[]⟩

def resolver : Resolver Id := search.resolver dividedTree.access

def root : SourceFile := ⟨.ofString "main.td", dividedText⟩

def linked : SourceFile := ⟨.ofString "sub/link.td", aheadText⟩

def files : List SourceFile :=
  [root, ⟨.ofString "a.td", aheadText⟩, ⟨.ofString "x.td", "def X;".toList⟩]

theorem evaluated :
    dividedTree.access.read root.path = .ok root.text ∧
    resolver.found root 3 = files ∧
    (IncludeSite.ofFiles files).length = 3 ∧
    files.any resolver.isBroken = false ∧
    root.directives.map IncludeDirective.name = ["a.td".toList, "sub/link.td".toList] ∧
    resolver.resolve root.path "sub/link.td".toList = .ok linked ∧
    resolver.isBroken linked = true := by
  refine ⟨?_, ?_, ?_, ?_, ?_, ?_, ?_⟩ <;> cbv

theorem followed : (IncludeSite.ofFiles (resolver.found root 3)).length ≤ 3 := by
  obtain ⟨-, hfound, hlength, -⟩ := evaluated
  rw [hfound, hlength]

theorem includes_linked : resolver.Includes root linked := by
  obtain ⟨-, -, -, -, hnames, hresolve, -⟩ := evaluated
  have hname : "sub/link.td".toList ∈ root.directives.map IncludeDirective.name := by
    rw [hnames]
    decide
  obtain ⟨directive, hdirective, hname⟩ := List.mem_map.1 hname
  exact ⟨directive, hdirective, hname ▸ hresolve⟩

end dividedTree

/-- A check succeeds although a file is included through a link from where something that
it includes cannot be found. -/
theorem run_check_divided : dividedTree.access.read dividedTree.root.path =
      .ok dividedTree.root.text ∧
    {file | Relation.ReflTransGen dividedTree.resolver.Includes dividedTree.root file}.Finite ∧
    (∃ file, Relation.ReflTransGen dividedTree.resolver.Includes dividedTree.root file ∧
      dividedTree.resolver.Broken file) ∧
    ∃ outcome, dividedTree.run ["check".toList, "main.td".toList] = .ok outcome ∧
      outcome.status = .success := by
  obtain ⟨hread, hfound, -, hsound, -, -, hbroken⟩ := dividedTree.evaluated
  obtain ⟨loading, hafter, hload⟩ := IncludeGraph.exists_loaded dividedTree.followed
  have hexplores := IncludeGraph.explores_of_after hafter dividedTree.followed
  obtain ⟨outcome, hchecked, hjudges⟩ := exists_judged hexplores 0
  refine ⟨hread, FileTree.finite_included dividedTree.search hread,
    ⟨dividedTree.linked, .single dividedTree.includes_linked, Resolver.isBroken_iff.1 hbroken⟩,
    outcome, ?_, ?_⟩
  · have hlength := Resolver.length_found_le (FileTree.finite_reachable dividedTree.search hread) 3
    have hreachable := FileTree.ncard_reachable_le dividedTree.search hread
    have hlimit : (dividedTree.resolver.found dividedTree.root 3).length ≤ Path.maxCount + 1 :=
      Nat.le_add_right_of_le (hlength.trans hreachable)
    exact (run_eq_of_load ofArguments_check hread (hload _ hlimit)).trans hchecked
  · rw [hjudges.success, hafter.files, hfound]
    exact fun file => Resolver.not_broken_of_any hsound

end TdSyntax.Command
