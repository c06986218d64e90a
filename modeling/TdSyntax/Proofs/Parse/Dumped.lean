import TdSyntax.Proofs.Parse.Lossless
import TdSyntax.Proofs.Text.Quoted
import TdSyntax.Proofs.Tree.Bare
import TdSyntax.Text.Position
import TdSyntax.Tree.Dump

/-!
# What a dump tells of a tree

A dump is cut into lines at its line feeds, since no label and no quoted text has one.  The
blanks in front of a line tell its depth, and what follows the label tells tokens from nodes.
A tree can be read off the depths of its lines, so two trees have the same dump if and only
if they agree up to trivia and the end of the file.
-/

namespace TdSyntax

namespace Kind

theorem labels_checked : (all.all fun kind => ofLabel? kind.label == some kind &&
    (!kind.label.toList.isEmpty && kind.label.toList.all fun c => c != ' ' && c != '\n')) =
      true := by
  decide +kernel

theorem label_spelled (kind : Kind) : ofLabel? kind.label = some kind ∧
    kind.label.toList ≠ [] ∧ ∀ c ∈ kind.label.toList, c ≠ ' ' ∧ c ≠ '\n' := by
  have hchecked := List.all_eq_true.1 labels_checked kind (mem_all kind)
  simpa only [Bool.and_eq_true, beq_iff_eq, Bool.not_eq_true', List.isEmpty_eq_false_iff,
    List.all_eq_true, bne_iff_ne] using hchecked

theorem label_injective : label.Injective := by
  intro first second h
  have hfirst := (label_spelled first).1
  rw [h, (label_spelled second).1] at hfirst
  exact (Option.some.inj hfirst).symm

end Kind

namespace Text

section

variable {holds : Char → Bool} {front back front' back' : Text}

theorem takeWhile_append (hfront : ∀ c ∈ front, holds c = true)
    (hback : ∀ c ∈ back.head?, holds c = false) : (front ++ back).takeWhile holds = front := by
  rw [List.takeWhile_append_of_pos hfront]
  cases back with
  | nil => simp
  | cons c rest => simp [hback c rfl]

theorem append_inj_of_cut (hfront : ∀ c ∈ front, holds c = true)
    (hback : ∀ c ∈ back.head?, holds c = false) (hfront' : ∀ c ∈ front', holds c = true)
    (hback' : ∀ c ∈ back'.head?, holds c = false) (h : front ++ back = front' ++ back') :
    front = front' ∧ back = back' := by
  obtain rfl : front = front' := by
    rw [← takeWhile_append hfront hback, h, takeWhile_append hfront' hback']
  exact ⟨rfl, List.append_cancel_left h⟩

end

theorem lines_flatMap_append_newline {parts : List Text} (h : ∀ part ∈ parts, '\n' ∉ part) :
    Text.lines (parts.flatMap (· ++ ['\n'])) = parts ++ [[]] := by
  induction parts with
  | nil => rfl
  | cons part rest ih =>
      obtain ⟨hpart, hrest⟩ := List.forall_mem_cons.1 h
      have hother : ∀ c ∈ part, (c == '\n') = false := fun c hmem =>
        beq_eq_false_iff_ne.2 (ne_of_mem_of_not_mem hmem hpart)
      rw [List.flatMap_cons, List.append_assoc, List.singleton_append, lines, List.splitOn,
        List.splitOnP_append_cons _ _ (by simp), List.splitOnP_eq_singleton hother]
      exact congrArg (part :: ·) (ih hrest)

end Text

/-- What a line of a dump shows of an element; a token has a text. -/
structure DumpLine where
  depth : Nat
  kind : Kind
  text : Option Text
  deriving DecidableEq, Repr

namespace DumpLine

def content (line : DumpLine) : Text :=
  line.kind.label.toList ++ line.text.elim [] fun text => ' ' :: text.quoted

def shown (line : DumpLine) : Text := List.replicate (line.depth * 2) ' ' ++ line.content

def render (line : DumpLine) : Text := dumpLine line.depth line.content

theorem shown_append_newline (line : DumpLine) : line.shown ++ ['\n'] = line.render := rfl

theorem newline_notMem_shown (line : DumpLine) : '\n' ∉ line.shown := by
  obtain ⟨-, -, hlabel⟩ := Kind.label_spelled line.kind
  have hkind : '\n' ∉ line.kind.label.toList := fun hmem => (hlabel _ hmem).2 rfl
  cases htext : line.text with
  | none => simp [shown, content, htext, hkind]
  | some text => simp [shown, content, htext, hkind, text.newline_notMem_quoted]

theorem content_head_ne (line : DumpLine) : ∀ c ∈ line.content.head?, (c == ' ') = false := by
  obtain ⟨-, hne, hlabel⟩ := Kind.label_spelled line.kind
  obtain ⟨first, rest, hcons⟩ := List.exists_cons_of_ne_nil hne
  have hfirst := (hlabel first (hcons ▸ List.mem_cons_self)).1
  simpa [content, hcons] using hfirst

theorem content_inj {first second : DumpLine} (h : first.content = second.content) :
    first.kind = second.kind ∧ first.text = second.text := by
  have hlabel : ∀ line : DumpLine, ∀ c ∈ line.kind.label.toList, (c != ' ') = true :=
    fun line c hmem =>
      bne_iff_ne.2 ((Kind.label_spelled line.kind).2.2 c hmem).1
  have hbehind : ∀ line : DumpLine,
      ∀ c ∈ (line.text.elim [] fun text => ' ' :: text.quoted).head?, (c != ' ') = false := by
    intro line
    cases line.text <;> simp
  obtain ⟨hkind, htext⟩ := Text.append_inj_of_cut (hlabel first) (hbehind first)
    (hlabel second) (hbehind second) h
  refine ⟨Kind.label_injective (String.toList_injective hkind), ?_⟩
  cases hfirst : first.text <;> cases hsecond : second.text <;> simp_all
  exact Text.quoted_injective htext

theorem shown_injective : shown.Injective := by
  intro first second h
  have hblank : ∀ line : DumpLine, ∀ c ∈ List.replicate (line.depth * 2) ' ', (c == ' ') = true :=
    fun line c hmem => beq_iff_eq.2 (List.eq_of_mem_replicate hmem)
  obtain ⟨hdepth, hcontent⟩ := Text.append_inj_of_cut (hblank first) first.content_head_ne
    (hblank second) second.content_head_ne h
  obtain ⟨hkind, htext⟩ := content_inj hcontent
  have hlength := congrArg List.length hdepth
  simp only [List.length_replicate] at hlength
  have hsame : first.depth = second.depth := by omega
  cases first
  cases second
  simp_all

theorem lines_flatMap_render (lines : List DumpLine) :
    Text.lines (lines.flatMap render) = lines.map shown ++ [[]] := by
  rw [← Text.lines_flatMap_append_newline (by simp [newline_notMem_shown]), List.flatMap_map]
  simp only [shown_append_newline]

theorem flatMap_render_injective : (List.flatMap render).Injective := by
  intro lines others h
  have hlines := congrArg Text.lines h
  rw [lines_flatMap_render, lines_flatMap_render] at hlines
  exact shown_injective.list_map (List.append_cancel_right hlines)

end DumpLine

namespace BareTree

mutual

def withoutEof : BareTree → List BareTree
  | .token word => if word.kind = .eof then [] else [.token word]
  | .node kind children => [.node kind (withoutEofAll children)]

def withoutEofAll : List BareTree → List BareTree
  | [] => []
  | first :: rest => withoutEof first ++ withoutEofAll rest

end

mutual

def lines (depth : Nat) : BareTree → List DumpLine
  | .token word => [⟨depth, word.kind, some word.text⟩]
  | .node kind children => ⟨depth, kind, none⟩ :: linesAll (depth + 1) children

def linesAll (depth : Nat) : List BareTree → List DumpLine
  | [] => []
  | first :: rest => lines depth first ++ linesAll depth rest

end

theorem linesAll_append (depth : Nat) (first second : List BareTree) :
    linesAll depth (first ++ second) = linesAll depth first ++ linesAll depth second := by
  induction first with
  | nil => rfl
  | cons tree rest ih => simp [linesAll, ih]

theorem exists_lines_eq (depth : Nat) (tree : BareTree) :
    ∃ line rest, tree.lines depth = line :: rest ∧ line.depth = depth := by
  cases tree with
  | token word => exact ⟨_, _, rfl, rfl⟩
  | node kind children => exact ⟨_, _, rfl, rfl⟩

variable {depth : Nat} {behind behind' : List DumpLine}

theorem depth_head_le (trees : List BareTree) (h : ∀ line ∈ behind.head?, line.depth < depth) :
    ∀ line ∈ (linesAll depth trees ++ behind).head?, line.depth < depth + 1 := by
  cases trees with
  | nil => exact fun line hline => Nat.lt_succ_of_lt (h line hline)
  | cons first rest =>
      obtain ⟨line, others, hlines, rfl⟩ := exists_lines_eq depth first
      simp [linesAll, hlines]

theorem not_linesAll_cons (tree : BareTree) (trees : List BareTree)
    (h : ∀ line ∈ behind.head?, line.depth < depth) :
    behind ≠ linesAll depth (tree :: trees) ++ behind' := by
  rintro rfl
  obtain ⟨line, others, hlines, rfl⟩ := exists_lines_eq depth tree
  simp [linesAll, hlines] at h

mutual

theorem lines_inj : ∀ (first second : BareTree) {depth : Nat} {behind behind' : List DumpLine},
    (∀ line ∈ behind.head?, line.depth < depth + 1) →
    (∀ line ∈ behind'.head?, line.depth < depth + 1) →
    first.lines depth ++ behind = second.lines depth ++ behind' →
    first = second ∧ behind = behind'
  | .token word, .token other, depth, behind, behind', _, _, h => by
      simp only [lines, List.singleton_append, List.cons.injEq, DumpLine.mk.injEq,
        Option.some.injEq, true_and] at h
      cases word
      cases other
      simp_all
  | .token word, .node kind children, depth, behind, behind', _, _, h => by
      simp [lines] at h
  | .node kind children, .token word, depth, behind, behind', _, _, h => by
      simp [lines] at h
  | .node kind children, .node kind' children', depth, behind, behind', hbehind, hbehind', h => by
      simp only [lines, List.cons_append, List.cons.injEq, DumpLine.mk.injEq, and_true,
        true_and] at h
      obtain ⟨rfl, hchildren⟩ := h
      obtain ⟨rfl, rfl⟩ := linesAll_inj children children' hbehind hbehind' hchildren
      exact ⟨rfl, rfl⟩

theorem linesAll_inj : ∀ (first second : List BareTree) {depth : Nat}
    {behind behind' : List DumpLine},
    (∀ line ∈ behind.head?, line.depth < depth) → (∀ line ∈ behind'.head?, line.depth < depth) →
    linesAll depth first ++ behind = linesAll depth second ++ behind' →
    first = second ∧ behind = behind'
  | [], [], depth, behind, behind', _, _, h => ⟨rfl, h⟩
  | [], tree :: trees, depth, behind, behind', hbehind, _, h =>
      absurd h (not_linesAll_cons tree trees hbehind)
  | tree :: trees, [], depth, behind, behind', _, hbehind', h =>
      absurd h.symm (not_linesAll_cons tree trees hbehind')
  | tree :: trees, tree' :: trees', depth, behind, behind', hbehind, hbehind', h => by
      simp only [linesAll, List.append_assoc] at h
      obtain ⟨rfl, hrest⟩ := lines_inj tree tree' (depth_head_le trees hbehind)
        (depth_head_le trees' hbehind') h
      obtain ⟨rfl, rfl⟩ := linesAll_inj trees trees' hbehind hbehind' hrest
      exact ⟨rfl, rfl⟩

end

/-- What the dump of a tree shows is told by its bare tree. -/
def dump (tree : BareTree) : Text :=
  (linesAll 0 tree.withoutEof).flatMap DumpLine.render

theorem dump_eq_iff (first second : BareTree) :
    first.dump = second.dump ↔ first.withoutEof = second.withoutEof := by
  constructor
  · intro h
    have hlines := DumpLine.flatMap_render_injective h
    have hnil : ∀ line ∈ ([] : List DumpLine).head?, line.depth < 0 := by simp
    exact (linesAll_inj _ _ hnil hnil (congrArg (· ++ []) hlines)).1
  · intro h
    rw [dump, dump, h]

end BareTree

theorem Leaf.dumpLines_eq {leaf : Leaf} {text : Text} (depth : Nat) (h : leaf.trimmed = .ok text) :
    leaf.dumpLines depth =
      .ok ((BareTree.linesAll depth (BareTree.token ⟨leaf.kind, text⟩).withoutEof).map
        DumpLine.render) := by
  unfold Leaf.dumpLines BareTree.withoutEof
  by_cases heof : leaf.kind = .eof
  · simp [heof, BareTree.linesAll]
  · simp [heof, h, BareTree.linesAll, BareTree.lines, DumpLine.render, DumpLine.content, bind,
      Except.bind, pure, Except.pure]

namespace Tree

mutual

theorem dumpLines_eq : ∀ (tree : Tree) {bare : BareTree} (depth : Nat), tree.bare = .ok bare →
    tree.dumpLines depth = .ok ((BareTree.linesAll depth bare.withoutEof).map DumpLine.render)
  | .leaf content, bare, depth, h => by
      cases htext : content.trimmed with
      | error fault => simp [Tree.bare, htext, bind, Except.bind] at h
      | ok text =>
          simp only [Tree.bare, htext, bind, Except.bind, pure, Except.pure, Except.ok.injEq] at h
          rw [← h]
          exact content.dumpLines_eq depth htext
  | .branch kind children, bare, depth, h => by
      cases hbares : bareAll children with
      | error fault => simp [Tree.bare, hbares, bind, Except.bind] at h
      | ok bares =>
          simp only [Tree.bare, hbares, bind, Except.bind, pure, Except.pure,
            Except.ok.injEq] at h
          rw [← h, dumpLines, dumpLinesAll_eq children (depth + 1) hbares]
          simp [BareTree.withoutEof, BareTree.linesAll, BareTree.lines, DumpLine.render,
            DumpLine.content, bind, Except.bind, pure, Except.pure]

theorem dumpLinesAll_eq : ∀ (trees : List Tree) {bares : List BareTree} (depth : Nat),
    bareAll trees = .ok bares →
    dumpLinesAll depth trees =
      .ok ((BareTree.linesAll depth (BareTree.withoutEofAll bares)).map DumpLine.render)
  | [], bares, depth, h => by
      cases h
      rfl
  | first :: rest, bares, depth, h => by
      cases hfirst : first.bare with
      | error fault => simp [bareAll, hfirst, bind, Except.bind] at h
      | ok tree =>
          cases hrest : bareAll rest with
          | error fault => simp [bareAll, hfirst, hrest, bind, Except.bind] at h
          | ok trees =>
              simp only [bareAll, hfirst, hrest, bind, Except.bind, pure, Except.pure,
                Except.ok.injEq] at h
              rw [← h, dumpLinesAll, dumpLines_eq first depth hfirst,
                dumpLinesAll_eq rest depth hrest]
              simp [BareTree.withoutEofAll, BareTree.linesAll_append, bind, Except.bind, pure,
                Except.pure]

end

theorem dump_eq {tree : Tree} {bare : BareTree} (h : tree.bare = .ok bare) :
    tree.dump = .ok bare.dump := by
  rw [dump, dumpLines_eq tree 0 h]
  simp [BareTree.dump, List.flatMap, bind, Except.bind, pure, Except.pure]

end Tree

namespace Parse

theorem exists_dump (text : Text) :
    ∃ parse tree, Parse.ofText text = .ok parse ∧ parse.tree.tree.bare = .ok tree ∧
      parse.tree.dump = .ok tree.dump := by
  obtain ⟨reading, -, -, hparse⟩ := ofText_eq text
  have hbare := Draft.bare_tree (.node .sourceFile
    (reading.drafts ++ [.token (TokenList.ofText text).eof]))
  exact ⟨_, _, hparse, hbare, Tree.dump_eq hbare⟩

theorem ofText_dump_eq_iff (first second : Text) :
    ∃ one two tree other dump dump', Parse.ofText first = .ok one ∧ Parse.ofText second = .ok two ∧
      one.tree.tree.bare = .ok tree ∧ two.tree.tree.bare = .ok other ∧
      one.tree.dump = .ok dump ∧ two.tree.dump = .ok dump' ∧
      (dump = dump' ↔ tree.withoutEof = other.withoutEof) := by
  obtain ⟨one, tree, hone, htree, hdump⟩ := exists_dump first
  obtain ⟨two, other, htwo, hother, hdump'⟩ := exists_dump second
  exact ⟨one, two, tree, other, tree.dump, other.dump, hone, htwo, htree, hother, hdump, hdump',
    tree.dump_eq_iff other⟩

end Parse

end TdSyntax
