import TdSyntax.Proofs.Parse.Derivation
import TdSyntax.Proofs.View.Filled

/-!
# The lists of a text without errors

If parsing a text reports no error, no list is empty that the grammar asks to have items,
except for the arguments of an operator: the parser lets empty parentheses pass there, and
only there.
-/

namespace TdSyntax.Parse

theorem ofText_filled {text : Text} {parse : Parse} (hparse : Parse.ofText text = .ok parse)
    (hclean : parse.hasErrors = false) : ∀ node ∈ parse.root.descendants, node.IsFilled := by
  obtain ⟨draft, hderived, houtlines⟩ := ofText_derived hparse hclean
  have hsound : parse.root.Sound := hderived.regular houtlines
  intro node hnode
  have hbelow : node.Sound := fun _ hinner => hsound _ (Node.descendants_trans hnode hinner)
  exact hbelow.isFilled

def manyLists : Text :=
  ("multiclass M : P \x7b def X; \x7d " ++
    "defvar y = !con((op \"a\" \"b\"), \x7b1,\x7d, z\x7b7...4, 0\x7d);").toList

theorem ofText_filled_manyLists :
    ∃ parse, Parse.ofText manyLists = .ok parse ∧ parse.hasErrors = false ∧
      [.bangOperation, .sequence, .concatenatedString, .rangeList, .parentClassList, .dagInit,
        .multiclassBody] ⊆ parse.root.descendants.map Node.kind ∧
      ∀ node ∈ parse.root.descendants, node.IsFilled := by
  have hrun : (Parse.ofText manyLists).toOption.any (fun parse => !parse.hasErrors &&
      decide ([.bangOperation, .sequence, .concatenatedString, .rangeList, .parentClassList,
        .dagInit, .multiclassBody] ⊆ parse.root.descendants.map Node.kind)) = true := by
    decide +kernel
  obtain ⟨parse, hparse⟩ := exists_ofText manyLists
  rw [hparse] at hrun
  simp only [Except.toOption, Option.any_some, Bool.and_eq_true, Bool.not_eq_true',
    decide_eq_true_eq] at hrun
  obtain ⟨hclean, hkinds⟩ := hrun
  exact ⟨parse, hparse, hclean, hkinds, ofText_filled hparse hclean⟩

def noArguments : Text := "defvar x = !add();".toList

/-- Nothing is reported of an operator without arguments. -/
theorem ofText_filled_noArguments :
    ∃ parse, Parse.ofText noArguments = .ok parse ∧ parse.diagnostics = [] ∧
      ∃ node ∈ parse.root.descendants, ∃ token,
        node.Shows (.bangOperation (some token) (some .add) none []) := by
  have hrun : (Parse.ofText noArguments).toOption.any (fun parse =>
      decide (parse.diagnostics = [] ∧ ∃ node ∈ parse.root.descendants,
        ∃ token ∈ node.tokenOfKind? .bangOperator,
          node.view = .ok (some (.bangOperation (some token) (some .add) none [])))) = true := by
    decide +kernel
  obtain ⟨parse, hparse⟩ := exists_ofText noArguments
  rw [hparse] at hrun
  simp only [Except.toOption, Option.any_some, decide_eq_true_eq] at hrun
  obtain ⟨hreports, node, hnode, token, -, hview⟩ := hrun
  exact ⟨parse, hparse, hreports, node, hnode, token, hview⟩

end TdSyntax.Parse
