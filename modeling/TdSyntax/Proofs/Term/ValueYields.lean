import TdSyntax.Proofs.Literal.Spelled
import TdSyntax.Proofs.Reading.Delimited

/-!
# Printed values are read as their trees

For each form of a value the grammar makes the tree of the form, provided that it
makes those of the parts.  A value is read to its end in front of every token that it
does not take up.
-/

namespace TdSyntax

namespace Grammar

open Term

variable {atoms : List Atom} {next : Kind} {trees : List BareTree} {tree : BareTree}
  {parts : List (List Atom)}

abbrev ValueElement (close : Kind) : List Atom → BareTree → Prop :=
  Element valueItem valueFirst close

theorem valueItem_none (h : valueFirst.contains next = false) :
    valueItem.Yields [] next [] false :=
  ifAt_neg (by simpa using h) (reject_yields next)

theorem integer_yields (number : IntegerText) (next : Kind) :
    integer.Yields [.integer number] next [.node .integer [Atom.leaf (.integer number)]] true :=
  node_yields (bump_leaf rfl next)

/-! ## Strings

The pieces of a string literal are no atoms, so its tokens are read one by one. -/

theorem stringPieces_builds {words : List Word}
    (h : ∀ word ∈ words, word.kind = .stringContent ∨ word.kind = .escapeSequence) :
    (Grammar.ifAt (.ofList [.stringContent, .escapeSequence]) .bump .reject).LoopBuilds words
      .doubleQuote (words.map .token) := by
  induction words with
  | nil => exact loop_last_builds (ifAt_builds (reject_builds .doubleQuote))
  | cons word words ih =>
      obtain ⟨hword, hwords⟩ := List.forall_mem_cons.1 h
      have hpiece :
          (Kind.Set.ofList [.stringContent, .escapeSequence]).contains word.kind = true := by
        simpa using hword
      have hround : (Grammar.ifAt (.ofList [.stringContent, .escapeSequence]) .bump .reject).Builds
          [word] (Word.headKind words .doubleQuote) [.token word] true := by
        refine ifAt_builds ?_
        rw [Word.headKind, List.head?_cons, Option.map_some, Option.getD_some, if_pos hpiece]
        exact bump_builds word _
      exact loop_cons_builds hround (ih hwords)

theorem string_builds {words : List Word}
    (h : ∀ word ∈ words, word.kind = .stringContent ∨ word.kind = .escapeSequence) (next : Kind) :
    string.Builds (Quoted.quote :: (words ++ [Quoted.quote])) next
      [.node .string ((Quoted.quote :: (words ++ [Quoted.quote])).map .token)] true := by
  have hclose : (eat .doubleQuote).Builds [Quoted.quote] next [.token Quoted.quote] true :=
    choose_builds .doubleQuote rfl (bump_builds Quoted.quote next)
  have hopen : (take .doubleQuote).Builds [Quoted.quote]
      (Word.headKind (words ++ [Quoted.quote]) next) [.token Quoted.quote] true :=
    choose_builds .doubleQuote rfl (bump_builds Quoted.quote _)
  have hall := seq_builds hopen (seq_builds (loop_builds (stringPieces_builds h)) hclose)
  have hnode : string.Builds _ next _ true := group_builds hall
  simpa using hnode

theorem string_yields (content : Text) (next : Kind) :
    string.Yields [.quoted content] next [stringTree content] true := by
  intro depth mark cursor later reading hspans hnext hread
  have hwords : Atom.wordsAll [.quoted content] = (Atom.quoted content).words := by simp
  rw [hwords, ← Spelled.words_printed] at hspans
  rw [stringTree, ← Spelled.words_printed]
  exact string_builds (Spelled.kind_of_mem_pieces _) next hspans hnext hread

theorem stringLoop_yields (contents : List Text) (h : next ≠ .doubleQuote) :
    (ifKind .doubleQuote string .reject).LoopYields (contents.map .quoted) next
      (contents.map stringTree) := by
  induction contents with
  | nil => exact loop_last (ifKind_neg h (reject_yields next))
  | cons content contents ih =>
      exact loop_cons (ifKind_pos rfl (string_yields content _)) ih

theorem strings_yields (first second : Text) (rest : List Text) (h : next ≠ .doubleQuote) :
    strings.Yields (.quoted first :: .quoted second :: rest.map .quoted) next
      [.node .concatenatedString
        (stringTree first :: stringTree second :: rest.map stringTree)] true := by
  have hloop := loop_yields (stringLoop_yields (second :: rest) h)
  exact grow_yields (string_yields first _) (ifKind_pos rfl hloop)

theorem strings_single (content : Text) (h : next ≠ .doubleQuote) :
    strings.Yields [.quoted content] next [stringTree content] true :=
  grow_alone (string_yields content next) (ifKind_neg h (reject_yields next))

/-! ## Types -/

theorem type_yields (type : TypeName) (next : Kind) :
    (Grammar.call .type).Yields type.atoms next [type.tree] true := by
  induction type generalizing next with
  | primitive type =>
      refine call_yields ?_
      cases type with
      | bit => exact choose .bitKw rfl (node_yields (bump_leaf rfl next))
      | int => exact choose .intKw rfl (node_yields (bump_leaf rfl next))
      | string => exact choose .stringKw rfl (node_yields (bump_leaf rfl next))
      | dag => exact choose .dagKw rfl (node_yields (bump_leaf rfl next))
      | code => exact choose .codeKw rfl (node_yields (bump_leaf rfl next))
  | bits width =>
      refine call_yields (choose .bitsKw rfl (node_yields ?_))
      exact seq_atom (bump_leaf rfl _) (seq_atom (expect_mark rfl _)
        (seq_atom (ifKind_pos rfl (integer_yields width _)) (expect_mark rfl next)))
  | list element ih =>
      refine call_yields (choose .listKw rfl (node_yields ?_))
      exact seq_atom (bump_leaf rfl _) (seq_atom (expect_mark rfl _)
        (seq_tree (ih _) (expect_mark rfl next)))
  | named name =>
      exact call_yields (choose .identifier rfl (node_yields (bump_leaf rfl next)))

theorem ascription_yields (type : Option TypeName) (h : type = none → next ≠ .leftAngle) :
    (optional .leftAngle typeAscription).Yields (ascription type) next (ascriptionTrees type)
      true := by
  cases type with
  | none => exact optional_none (h rfl)
  | some type =>
      refine ifKind_pos rfl (node_yields ?_)
      exact seq_atom (take_mark rfl _) (seq_tree (type_yields type _) (expect_mark rfl next))

/-! ## Lists of values -/

theorem valueList_yields {opening close : Kind} (hopening : opening.isMark = true)
    (hmark : close.isMark = true) (hclose : valueFirst.contains close = false)
    (hne : close ≠ .comma) (h : List.Forall₂ (ValueElement close) parts trees) (next : Kind) :
    (valueList opening close).Yields
      (.mark opening hopening :: (commas parts ++ [.mark close hmark])) next
      (Atom.leaf (.mark opening hopening) ::
        (commaTrees trees ++ [Atom.leaf (.mark close hmark)])) true :=
  delimited_yields hopening hmark rfl hclose hne (valueItem_none hclose) h next

theorem sequence_yields (hne : parts ≠ [])
    (h : List.Forall₂ (ValueElement .rightBrace) parts trees) (next : Kind) :
    sequence.Yields (.mark .leftBrace :: (commas parts ++ [.mark .rightBrace])) next
      [.node .sequence (Atom.leaf (.mark .leftBrace) ::
        (commaTrees trees ++ [Atom.leaf (.mark .rightBrace)]))] true := by
  have hhead : valueFirst.contains (Atom.headKind (commas parts ++ [.mark .rightBrace]) next) =
      true := by
    rw [Atom.headKind_append]
    exact starts_headKind_commas hne h _
  have hcomma : Atom.headKind (commas parts ++ [.mark .rightBrace]) next ≠ .comma := by
    intro heq
    rw [heq] at hhead
    cases hhead
  refine node_yields (marked_yields (seq_atom (take_mark rfl _) ?_))
  refine seq_none (loop_yields (loop_last (ifKind_neg hcomma (reject_yields _)))) ?_
  have hitems : (items valueItem .comma .value valueFirst).Yields (commas parts) .rightBrace
      (commaTrees trees) true := items_yields rfl rfl (by decide) (valueItem_none rfl) h
  exact ifAt_pos hhead (seq_yields hitems (expect_mark rfl next))

theorem listInit_yields (type : Option TypeName) (hnext : type = none → next ≠ .leftAngle)
    (h : List.Forall₂ (ValueElement .rightBracket) parts trees) :
    listInit.Yields
      (.mark .leftBracket :: (commas parts ++ .mark .rightBracket :: ascription type)) next
      [.node .listInit (Atom.leaf (.mark .leftBracket) ::
        (commaTrees trees ++ Atom.leaf (.mark .rightBracket) :: ascriptionTrees type))] true := by
  have hlist := @valueList_yields _ _ .leftBracket .rightBracket rfl rfl rfl (by decide) h
    (Atom.headKind (ascription type) next)
  have hboth := seq_yields hlist (ascription_yields type hnext)
  simp only [List.cons_append, List.append_assoc, List.nil_append] at hboth
  exact node_yields hboth

theorem argList_yields {opening close : Kind} (hopening : opening.isMark = true)
    (hmark : close.isMark = true) (hclose : valueFirst.contains close = false)
    (hne : close ≠ .comma) (h : List.Forall₂ (ValueElement close) parts trees) (next : Kind) :
    (argList opening close).Yields
      (.mark opening hopening :: (commas parts ++ [.mark close hmark])) next
      [.node .argList (Atom.leaf (.mark opening hopening) ::
        (commaTrees trees ++ [Atom.leaf (.mark close hmark)]))] true :=
  node_yields (valueList_yields hopening hmark hclose hne h next)

theorem identifier_yields (name : Name) (h : next ≠ .leftAngle) :
    identifierValue.Yields [.name name] next [.node .ident [Atom.leaf (.name name)]] true :=
  group_rejected (seq_atom (bump_leaf rfl _) (ifKind_neg h (reject_yields next)))

theorem record_yields (name : Name)
    (h : List.Forall₂ (ValueElement .rightAngle) parts trees) (next : Kind) :
    identifierValue.Yields
      (.name name :: .mark .leftAngle :: (commas parts ++ [.mark .rightAngle])) next
      [.node .anonymousRecord [Atom.leaf (.name name),
        .node .argList (Atom.leaf (.mark .leftAngle) ::
          (commaTrees trees ++ [Atom.leaf (.mark .rightAngle)]))]] true :=
  group_accepted (seq_atom (bump_leaf rfl _)
    (ifKind_pos rfl (argList_yields rfl rfl rfl (by decide) h next)))

theorem bang_yields (operator : BangOperator) (type : Option TypeName)
    (h : List.Forall₂ (ValueElement .rightParen) parts trees) (next : Kind) :
    bangOperation.Yields
      (.operator operator :: (ascription type ++ .mark .leftParen ::
        (commas parts ++ [.mark .rightParen]))) next
      [.node .bangOperation (Atom.leaf (.operator operator) :: (ascriptionTrees type ++
        [.node .argList (Atom.leaf (.mark .leftParen) ::
          (commaTrees trees ++ [Atom.leaf (.mark .rightParen)]))]))] true := by
  refine node_yields (seq_atom (bump_leaf rfl _) ?_)
  refine seq_yields (ascription_yields type fun _ => ?_)
    (ifKind_pos rfl (argList_yields rfl rfl rfl (by decide) h next))
  simp

/-! ## Conditions -/

theorem clause_yields {condition value : List Atom} {conditionTree valueTree : BareTree}
    (hfirst : ∀ next, valueFirst.contains (Atom.headKind condition next) = true)
    (hcondition : anyValue.Yields condition .colon [conditionTree] true)
    (hvalue : anyValue.Yields value next [valueTree] true) :
    condClause.Yields (condition ++ .mark .colon :: value) next
      [.node .condClause [conditionTree, Atom.leaf (.mark .colon), valueTree]] true := by
  refine ifAt_pos ?_ (node_yields (seq_tree hcondition (seq_atom (expect_mark rfl _) hvalue)))
  rw [Atom.headKind_append]
  exact hfirst _

abbrev ClauseElement : List Atom → BareTree → Prop := Element condClause valueFirst .rightParen

theorem cond_yields (h : List.Forall₂ ClauseElement parts trees) (next : Kind) :
    condOperation.Yields
      (.condOperator :: .mark .leftParen :: (commas parts ++ [.mark .rightParen])) next
      [.node .condOperation (Atom.leaf .condOperator :: Atom.leaf (.mark .leftParen) ::
        (commaTrees trees ++ [Atom.leaf (.mark .rightParen)]))] true := by
  refine node_yields (seq_atom (bump_leaf rfl _) (ifKind_pos rfl ?_))
  exact delimited_yields rfl rfl rfl rfl (by decide) (ifAt_neg rfl (reject_yields _)) h next

/-! ## Dags -/

def dagFirst : Kind.Set := valueFirst.union (.singleton .varName)

abbrev DagElement : List Atom → BareTree → Prop := Element dagArg dagFirst .rightParen

def dagRound : Grammar :=
  .ifAt (.ofList [.rightParen, .eof]) .reject
    (.seq (eat .comma) (ifKind .rightParen .reject dagArg))

theorem dagRound_arg {part : List Atom} (h : DagElement part tree)
    (hnext : next = .comma ∨ next = .rightParen) : dagRound.Yields part next [tree] true := by
  have hparen := headKind_ne_of_starts h.starts (rfl : dagFirst.contains .rightParen = false) next
  have heof := headKind_ne_of_starts h.starts (rfl : dagFirst.contains .eof = false) next
  have hcomma := headKind_ne_of_starts h.starts (rfl : dagFirst.contains .comma = false) next
  refine ifAt_neg (by simp [hparen, heof]) ?_
  exact seq_none (eat_rejects hcomma) (ifKind_neg hparen (h.yields next hnext))

theorem dagRound_comma {part : List Atom} (h : DagElement part tree)
    (hnext : next = .comma ∨ next = .rightParen) :
    dagRound.Yields (.mark .comma :: part) next [Atom.leaf (.mark .comma), tree] true := by
  have hparen := headKind_ne_of_starts h.starts (rfl : dagFirst.contains .rightParen = false) next
  exact choose .comma rfl
    (seq_atom (eat_mark rfl _) (ifKind_neg hparen (h.yields next hnext)))

theorem dagLoop_comma (hne : parts ≠ []) (h : List.Forall₂ DagElement parts trees) :
    dagRound.LoopYields (.mark .comma :: commas parts) .rightParen
      (Atom.leaf (.mark .comma) :: commaTrees trees) := by
  have hend : dagRound.LoopYields [] .rightParen [] :=
    loop_last (choose .rightParen rfl (reject_yields _))
  induction h with
  | nil => exact absurd rfl hne
  | cons hfirst hrest ih =>
      rename_i part tree parts trees
      cases hrest with
      | nil =>
          have hloop := loop_cons (dagRound_comma hfirst (.inr rfl)) hend
          simpa using hloop
      | cons hsecond hmore =>
          rename_i second secondTree parts trees
          rw [commas_cons part (second :: parts) (by simp),
            commaTrees_cons tree (secondTree :: trees) (by simp)]
          have hloop := loop_cons (dagRound_comma hfirst (.inl rfl)) (ih (by simp))
          simpa using hloop

theorem dagLoop_yields {comma : List Atom} (hcomma : comma = [] ∨ comma = [.mark .comma])
    (hparts : parts = [] → comma = []) (h : List.Forall₂ DagElement parts trees) :
    dagRound.LoopYields (comma ++ commas parts) .rightParen
      (comma.map Atom.leaf ++ commaTrees trees) := by
  have hend : dagRound.LoopYields [] .rightParen [] :=
    loop_last (choose .rightParen rfl (reject_yields _))
  cases h with
  | nil =>
      rw [hparts rfl]
      exact hend
  | cons hfirst hrest =>
      rename_i part tree parts trees
      rcases hcomma with rfl | rfl
      · cases hrest with
        | nil =>
            have hloop := loop_cons (dagRound_arg hfirst (.inr rfl)) hend
            simpa using hloop
        | cons hsecond hmore =>
            rename_i second secondTree parts trees
            rw [commas_cons part (second :: parts) (by simp),
              commaTrees_cons tree (secondTree :: trees) (by simp)]
            have hloop := loop_cons (dagRound_arg hfirst (.inl rfl))
              (dagLoop_comma (by simp) (.cons hsecond hmore))
            simpa using hloop
      · exact dagLoop_comma (by simp) (.cons hfirst hrest)

theorem dagInit_yields {operator : List Atom} {operatorTree : BareTree} {comma : List Atom}
    (hcomma : comma = [] ∨ comma = [.mark .comma]) (hparts : parts = [] → comma = [])
    (hoperator : dagArg.Yields operator (Atom.headKind (comma ++ commas parts) .rightParen)
      [operatorTree] true)
    (h : List.Forall₂ DagElement parts trees) (next : Kind) :
    dagInit.Yields
      (.mark .leftParen :: (operator ++ (comma ++ (commas parts ++ [.mark .rightParen])))) next
      [.node .dagInit (Atom.leaf (.mark .leftParen) :: operatorTree ::
        (comma.map Atom.leaf ++ (commaTrees trees ++ [Atom.leaf (.mark .rightParen)])))] true := by
  have hargs := seq_yields (loop_yields (dagLoop_yields hcomma hparts h))
    (@expect_mark .rightParen rfl next)
  rw [List.append_assoc, List.append_assoc] at hargs
  refine node_yields (seq_atom (take_mark rfl _) (seq_tree (ifOk_accept ?_) hargs))
  have hhead : Atom.headKind (comma ++ (commas parts ++ [.mark .rightParen])) next =
      Atom.headKind (comma ++ commas parts) .rightParen := by
    rw [← List.append_assoc, Atom.headKind_append]
    rfl
  rw [hhead]
  exact hoperator

theorem dagArg_plain {value : List Atom}
    (hfirst : ∀ next, valueFirst.contains (Atom.headKind value next) = true)
    (hvalue : anyValue.Yields value next [tree] true) (hcolon : next ≠ .colon) :
    dagArg.Yields value next [.node .dagArg [tree]] true := by
  have hvar := headKind_ne_of_starts hfirst (rfl : valueFirst.contains .varName = false) next
  refine ifKind_neg hvar (ifAt_pos (hfirst next) (node_yields ?_))
  exact seq_last hvalue (ifOk_eat_none (by simpa using hcolon) (accept_yields next))

theorem dagArg_bound {value : List Atom} (name : VarName)
    (hfirst : ∀ next, valueFirst.contains (Atom.headKind value next) = true)
    (hvalue : anyValue.Yields value .colon [tree] true) (next : Kind) :
    dagArg.Yields (value ++ [.mark .colon, .varName name]) next
      [.node .dagArg [tree, Atom.leaf (.mark .colon), Atom.leaf (.varName name)]] true := by
  have hhead : ∀ next,
      valueFirst.contains (Atom.headKind (value ++ [.mark .colon, .varName name]) next) = true := by
    intro next
    rw [Atom.headKind_append]
    exact hfirst _
  have hvar := headKind_ne_of_starts hhead (rfl : valueFirst.contains .varName = false) next
  refine ifKind_neg hvar (ifAt_pos (hhead next) (node_yields ?_))
  exact seq_tree hvalue (ifOk_eat rfl (ifOk_accept (ifKind_pos rfl (bump_leaf rfl next))))

theorem dagArg_named (name : VarName) (next : Kind) :
    dagArg.Yields [.varName name] next [.node .dagArg [Atom.leaf (.varName name)]] true :=
  choose .varName rfl (node_yields (bump_leaf rfl next))

/-! ## Ranges -/

abbrev RangeElement (close : Kind) : List Atom → BareTree → Prop :=
  Element rangePiece valueFirst close

def joinsRange (next : Kind) : Bool :=
  next == .ellipsis || next == .minus || next == .integerLiteral

theorem range_single {value : List Atom}
    (hfirst : ∀ next, valueFirst.contains (Atom.headKind value next) = true)
    (hvalue : anyValue.Yields value next [tree] true) (hnext : joinsRange next = false) :
    rangePiece.Yields value next [.node .rangePiece [tree]] true := by
  simp only [joinsRange, Bool.or_eq_false_iff, beq_eq_false_iff_ne] at hnext
  refine ifAt_pos (hfirst next) (node_yields (seq_last hvalue ?_))
  exact ifAt_neg (by simp [hnext]) (ifKind_neg hnext.2 (accept_yields next))

theorem range_span {start stop : List Atom} {startTree stopTree : BareTree} (mark : RangeMark)
    (hfirst : ∀ next, valueFirst.contains (Atom.headKind start next) = true)
    (hstart : anyValue.Yields start mark.atom.kind [startTree] true)
    (hstop : anyValue.Yields stop next [stopTree] true) :
    rangePiece.Yields (start ++ mark.atom :: stop) next
      [.node .rangePiece [startTree, mark.atom.leaf, stopTree]] true := by
  refine ifAt_pos ?_ (node_yields (seq_tree hstart ?_))
  · rw [Atom.headKind_append]
    exact hfirst _
  · cases mark with
    | ellipsis => exact choose .ellipsis rfl (seq_atom (bump_leaf rfl _) hstop)
    | dash => exact choose .minus rfl (seq_atom (bump_leaf rfl _) hstop)

theorem rangeList_yields {close : Kind} (hne : parts ≠ []) (hclose : close ≠ .comma)
    (h : List.Forall₂ (RangeElement close) parts trees) :
    rangeList.Yields (commas parts) close [.node .rangeList (commaTrees trees)] true := by
  have hrounds := loop_yields (loop_commas hne (h.imp fun _ _ helement =>
    @round_of_eat rangePiece close _ .reject _ hclose (helement.yields _ (.inl rfl))
      (helement.yields _ (.inr rfl))))
  exact ifAt_pos (starts_headKind_commas hne h close) (node_yields hrounds)

/-! ## Suffixes -/

theorem bitSlice_yields (hne : parts ≠ [])
    (h : List.Forall₂ (RangeElement .rightBrace) parts trees) (next : Kind) :
    (suffix .anywhere).Yields (.mark .leftBrace :: (commas parts ++ [.mark .rightBrace])) next
      [.node .bitSlice [Atom.leaf (.mark .leftBrace), .node .rangeList (commaTrees trees),
        Atom.leaf (.mark .rightBrace)]] true :=
  choose .leftBrace rfl (node_yields (seq_atom (bump_leaf rfl _)
    (seq_tree (rangeList_yields hne (by simp) h) (expect_mark rfl next))))

theorem listSlice_yields (place : ValuePlace) (hne : parts ≠ [])
    (h : List.Forall₂ (RangeElement .rightBracket) parts trees) (next : Kind) :
    (suffix place).Yields (.mark .leftBracket :: (commas parts ++ [.mark .rightBracket])) next
      [.node .listSlice [Atom.leaf (.mark .leftBracket), .node .rangeList (commaTrees trees),
        Atom.leaf (.mark .rightBracket)]] true := by
  have hslice : listSlice.Yields
      (.mark .leftBracket :: (commas parts ++ [.mark .rightBracket])) next
      [.node .listSlice [Atom.leaf (.mark .leftBracket), .node .rangeList (commaTrees trees),
        Atom.leaf (.mark .rightBracket)]] true :=
    node_yields (seq_atom (bump_leaf rfl _)
      (seq_tree (rangeList_yields hne (by simp) h) (expect_mark rfl next)))
  cases place <;> exact choose .leftBracket rfl hslice

theorem fieldAccess_yields (place : ValuePlace) (name : Name) (next : Kind) :
    (suffix place).Yields [.mark .dot, .name name] next
      [.node .fieldAccess [Atom.leaf (.mark .dot), Atom.leaf (.name name)]] true := by
  have hfield : fieldAccess.Yields [.mark .dot, .name name] next
      [.node .fieldAccess [Atom.leaf (.mark .dot), Atom.leaf (.name name)]] true :=
    node_yields (seq_atom (bump_leaf rfl _)
      (ifOk_accept (ifKind_pos rfl (bump_leaf rfl next))))
  cases place <;> exact choose .dot rfl hfield

theorem suffix_rejects {place : ValuePlace} (h : startsSuffix place next = false) :
    (suffix place).Yields [] next [] false := by
  simp only [startsSuffix, Bool.or_eq_false_iff, beq_eq_false_iff_ne] at h
  have hother : (ifKind .leftBracket listSlice (ifKind .dot fieldAccess .reject)).Yields [] next
      [] false := ifKind_neg h.1.1 (ifKind_neg h.1.2 (reject_yields next))
  cases place with
  | recordName => exact hother
  | anywhere => exact ifKind_neg (by simpa using h.2) hother

end Grammar

end TdSyntax
