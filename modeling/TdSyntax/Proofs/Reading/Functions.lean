import TdSyntax.Proofs.Reading.Visits

/-!
# Every function of the grammar comes to an end

The functions of the grammar are read at any token, except those that state a token that they
begin with.  Whatever they visit has a reading and nests nothing without end, no function is
entered again inside itself before a token is taken, and neither a loop nor skipping goes round
again without a token.
-/

namespace TdSyntax

open Relation (ReflTransGen)

/-! ## Skipping -/

namespace Recovery

/-- What one round of skipping leaves: whether another one follows, the number of open braces,
and the kinds of the tokens that remain. -/
structure Round where
  again : Bool
  depth : Nat
  kinds : List Kind
  deriving DecidableEq, Repr

def round (recovery : Recovery) (depth : Nat) (kinds : List Kind) : Round :=
  let kind := kinds.headD .eof
  match recovery with
  | .upTo stops =>
      if stops.contains kind || kind == .eof then ⟨false, depth, kinds⟩
      else ⟨true, depth, kinds.tail⟩
  | .toStatement inBlock =>
      if kind = .eof then ⟨false, depth, kinds⟩
      else if kind = .rightBrace then
        if depth = 0 && inBlock then ⟨false, depth, kinds⟩ else ⟨true, depth - 1, kinds.tail⟩
      else if kind = .leftBrace then ⟨true, depth + 1, kinds.tail⟩
      else if depth = 0 && Grammar.statementFirst.contains kind then ⟨false, depth, kinds⟩
      else ⟨true, depth, kinds.tail⟩
  | .toBodyItem =>
      let next := kinds.tail.headD .eof
      ⟨!(kind == .semicolon || next == .eof || endsBodyItem next), depth, kinds.tail⟩

inductive Skips (recovery : Recovery) : Nat → List Kind → List Kind → Prop
  | last (left : Nat) {depth : Nat} {kinds rest : List Kind}
      (hround : recovery.round depth kinds = ⟨false, left, rest⟩) : Skips recovery depth kinds rest
  | again (left : Nat) {depth : Nat} {kinds behind rest : List Kind}
      (hround : recovery.round depth kinds = ⟨true, left, behind⟩)
      (hrest : Skips recovery left behind rest) : Skips recovery depth kinds rest

theorem length_tail_lt {kinds : List Kind} (h : kinds.headD .eof ≠ .eof) :
    kinds.tail.length < kinds.length := by
  cases kinds with
  | nil => exact absurd rfl h
  | cons kind rest => simp

theorem round_shortens {recovery : Recovery} {depth left : Nat} {kinds rest : List Kind}
    (h : recovery.round depth kinds = ⟨true, left, rest⟩) : rest.length < kinds.length := by
  cases recovery with
  | upTo stops =>
      simp only [round, Bool.or_eq_true, beq_iff_eq] at h
      split_ifs at h with hstop
      · cases h
      · cases h
        exact length_tail_lt fun heof => hstop (.inr heof)
  | toStatement inBlock =>
      simp only [round] at h
      split_ifs at h with heof <;> cases h <;> exact length_tail_lt heof
  | toBodyItem =>
      cases kinds with
      | nil => simp [round] at h
      | cons kind behind =>
          simp only [round, Round.mk.injEq] at h
          simp [← h.2.2]

variable {kinds : List Kind}

theorem skips_upTo (stops : Kind.Set) (h : ∀ kind ∈ kinds, kind ≠ .eof) (depth : Nat) :
    (Recovery.upTo stops).Skips depth kinds
      (kinds.drop (kinds.takeWhile fun kind => !stops.contains kind).length) := by
  induction kinds with
  | nil => exact .last depth (by simp [round])
  | cons kind rest ih =>
      obtain ⟨hkind, hrest⟩ := List.forall_mem_cons.1 h
      cases hstop : stops.contains kind with
      | true => exact .last depth (by simp [round, hstop])
      | false =>
          have hround : (upTo stops).round depth (kind :: rest) = ⟨true, depth, rest⟩ := by
            simp [round, hstop, hkind]
          refine .again depth hround ?_
          simpa [hstop] using ih hrest

theorem skips_toStatement (inBlock : Bool) (h : ∀ kind ∈ kinds, kind ≠ .eof) (depth : Nat) :
    (Recovery.toStatement inBlock).Skips depth kinds
      (kinds.drop (lengthToStatement inBlock depth kinds)) := by
  induction kinds generalizing depth with
  | nil => exact .last depth (by simp [round])
  | cons kind rest ih =>
      obtain ⟨hkind, hrest⟩ := List.forall_mem_cons.1 h
      rw [lengthToStatement]
      split_ifs with hcloses hends hopens hstarts
      · exact .last depth (by simp_all [round])
      · exact .again (depth - 1) (by simp_all [round]) (ih hrest _)
      · exact .again (depth + 1) (by simp_all [round]) (ih hrest _)
      · exact .last depth (by simp_all [round])
      · exact .again depth (by simp_all [round]) (ih hrest _)

theorem skips_toBodyItem (h : ∀ kind ∈ kinds, kind ≠ .eof) (depth : Nat) :
    Recovery.toBodyItem.Skips depth kinds (kinds.drop (lengthToBodyItem kinds)) := by
  induction kinds with
  | nil => exact .last depth (by simp [round])
  | cons kind rest ih =>
      obtain ⟨-, hrest⟩ := List.forall_mem_cons.1 h
      rw [lengthToBodyItem]
      cases rest with
      | nil => exact .last depth (by simp [round, lengthToBodyItem])
      | cons next rest =>
          have hnext := hrest next List.mem_cons_self
          split_ifs with hends
          · simp only [Bool.or_eq_true, decide_eq_true_eq, List.head?_cons,
              Option.any_some] at hends
            refine .last depth ?_
            rcases hends with rfl | hends <;> simp [round, *]
          · exact .again depth (by simp_all [round]) (ih hrest)

/-- Round by round those tokens are skipped that are skipped at once. -/
theorem skips (recovery : Recovery) (h : ∀ kind ∈ kinds, kind ≠ .eof) :
    recovery.Skips 0 kinds (kinds.drop (recovery.length kinds)) := by
  cases recovery with
  | upTo stops => exact skips_upTo stops h 0
  | toStatement inBlock => exact skips_toStatement inBlock h 0
  | toBodyItem => exact skips_toBodyItem h 0

end Recovery

/-! ## Functions -/

namespace Grammar

def placedFunctions : List (StatementPlace → Grammar) :=
  [anyStatement, statements, block, recordSet, iteration, conditional, letBlock,
    statementByKeyword]

def freeFunctions : List Grammar :=
  [file, statement .topLevel, statement .multiclass, statements .topLevel, statements .multiclass,
    block .topLevel, block .multiclass, recoverStatement true, recoverStatement false,
    classDefinition, recordDefinition, recordInstances, recordSet .topLevel,
    recordSet .multiclass, definedVariable, assertion, iteration .topLevel,
    iteration .multiclass, foreachIterator, conditional .topLevel, conditional .multiclass,
    inclusion, letBlock .topLevel, letBlock .multiclass, letItem, multiclassDefinition,
    multiclassBody, declaredName, initializer, templateArgs, templateArg, parentClass, recordName,
    recordBody, body, bodyItem, recoverBodyItem, field, letInstruction,
    type, integer, value .anywhere, value .recordName, suffixedValue .anywhere,
    suffixedValue .recordName, suffix .anywhere, suffix .recordName, simpleValue, valueItem,
    identifierValue, bangOperation, condOperation, condClause, dagArg, rangeList, rangePiece,
    bitSlice, listSlice, fieldAccess]

/-- The functions of the grammar, with the kinds of the tokens that they are read at. -/
def functions : List (Kind.Set × Grammar) :=
  freeFunctions.map (Kind.Set.full, ·) ++
    [(statementFirst, statementByKeyword .topLevel),
      (statementFirst, statementByKeyword .multiclass), (notInMulticlass, misplacedStatement),
      (.singleton .colon, parentClassList), (.singleton .leftAngle, typeAscription),
      (.singleton .doubleQuote, string), (.singleton .doubleQuote, strings),
      (.singleton .exclamation, unknownBang), (.singleton .leftBrace, sequence),
      (.singleton .leftBracket, listInit), (.singleton .leftParen, dagInit),
      (.singleton .leftBracket, valueList .leftBracket .rightBracket),
      (.singleton .leftAngle, argList .leftAngle .rightAngle),
      (.singleton .leftParen, argList .leftParen .rightParen),
      (.singleton .leftAngle,
        delimited .leftAngle .rightAngle templateArg .templateArgument typeFirst),
      (.singleton .leftParen,
        delimited .leftParen .rightParen condClause .condition valueFirst)]

theorem functions_pass : ∀ entry ∈ functions,
    (entry.2.exits ⟨true, false, entry.1⟩).isSome = true := by
  decide +kernel

/-- The same part, or the same function for another place of statements. -/
inductive Repeats : Grammar → Grammar → Prop
  | same (grammar : Grammar) : Repeats grammar grammar
  | placed {function : StatementPlace → Grammar} (h : function ∈ placedFunctions)
      (place other : StatementPlace) : Repeats (function place) (function other)

theorem Repeats.exits_eq {grammar later : Grammar} (h : grammar.Repeats later) :
    later.exits = grammar.exits := by
  cases h with
  | same => rfl
  | @placed function hmem place other =>
      simp only [placedFunctions, List.mem_cons, List.not_mem_nil, or_false] at hmem
      rcases hmem with rfl | rfl | rfl | rfl | rfl | rfl | rfl | rfl <;>
        cases place <;> cases other <;> rfl

end Grammar

structure Cursor.IsStream (cursor : Cursor) : Prop where
  eof : cursor.eof.kind = .eof
  tokens : ∀ token ∈ cursor.tokens, token.kind ≠ .eof

theorem Cursor.IsStream.reaches {cursor later : Cursor} (h : cursor.IsStream)
    (hreaches : cursor.Reaches later) : later.IsStream :=
  ⟨hreaches.eof ▸ h.eof, fun token hmem => h.tokens token (hreaches.tokens.subset hmem)⟩

namespace Visit

/-- A visit comes to an end, and takes a token before anything is entered or goes round again. -/
structure Progresses (visit : Visit) : Prop where
  gives : ∃ reading, visit.Gives reading
  acc : Acc (fun later visit => visit.Holds later) visit
  repeated : ∀ later, visit.Nests later → visit.grammar.Repeats later.grammar →
    later.cursor.tokens.length < visit.cursor.tokens.length
  entered : ∀ entered inner next, visit.Enters entered → ReflTransGen Holds entered inner →
    inner.Enters next → inner.cursor.tokens.length < visit.cursor.tokens.length
  round : ∀ turn reading, visit.Rounds turn → turn.Gives reading → reading.accepted = true →
    reading.cursor.tokens.length < turn.cursor.tokens.length
  skips : ∀ recovery, visit.grammar = .skip recovery → ∀ reading, visit.Gives reading →
    recovery.Skips 0 (visit.cursor.tokens.map Token.kind) (reading.cursor.tokens.map Token.kind)
  skipped : ∀ recovery, visit.grammar = .skip recovery → ∀ depth left kinds rest,
    recovery.round depth kinds = ⟨true, left, rest⟩ → rest.length < kinds.length

variable {visit : Visit} {limit : Nat}

theorem Gives.skips {reading : Reading} {recovery : Recovery} (h : visit.Gives reading)
    (hgrammar : visit.grammar = .skip recovery) (hstream : visit.cursor.IsStream) :
    recovery.Skips 0 (visit.cursor.tokens.map Token.kind)
      (reading.cursor.tokens.map Token.kind) := by
  obtain ⟨depth, hread⟩ := h
  rw [hgrammar] at hread
  cases hread
  rw [Reading.taking, List.map_drop]
  exact recovery.skips (by simpa using hstream.tokens)

theorem Passes.progresses (h : visit.Passes limit) (hstream : visit.cursor.IsStream) :
    visit.Progresses where
  gives := h.exists_gives
  acc := h.acc
  repeated _ hnests hrepeats := hnests.shortens hstream.eof hrepeats.exits_eq
  entered _ _ _ henters hholds hnext := henters.shortens hstream.eof hholds hnext
  round _ _ hround hgives haccepted := h.round_shortens hround hgives haccepted
  skips _ hgrammar _ hgives := hgives.skips hgrammar hstream
  skipped _ _ _ _ _ _ hround := Recovery.round_shortens hround

end Visit

namespace Grammar

/-- A function of the grammar can be run at whatever token it is read at, and whatever it visits
on the way comes to an end. -/
theorem functions_progress {kinds : Kind.Set} {function : Grammar}
    (hfunction : (kinds, function) ∈ functions) {cursor : Cursor} (hstream : cursor.IsStream)
    (hkind : kinds.contains cursor.kind = true) :
    (∃ reading, function.run cursor = some reading) ∧
      ∀ mark visit, ReflTransGen Visit.Holds ⟨function, mark, cursor⟩ visit → visit.Progresses := by
  obtain ⟨exits, hexits⟩ := Option.isSome_iff_exists.1 (functions_pass _ hfunction)
  have hadmits : Flow.Admits ⟨true, false, kinds⟩ (cursor.tokens.length + 1)
      cursor.tokens.length cursor := ⟨hkind, hstream.eof, by simp, by simp⟩
  constructor
  · have hcall : Obeys (Rule.read (cursor.tokens.length + 2)) (cursor.tokens.length + 1) :=
      fun rule later hlater hshorter => Rule.read_obeys _ rule later hlater (by omega)
    obtain ⟨reading, hread, -⟩ :=
      read_leads hcall function cursor.current _ exits hexits _ cursor hadmits
    exact ⟨reading, hread⟩
  · intro mark visit hvisit
    have hpasses : Visit.Passes (cursor.tokens.length + 1) ⟨function, mark, cursor⟩ :=
      ⟨_, exits, _, hexits, hadmits⟩
    obtain ⟨bound, hbound⟩ := hpasses.visits hvisit
    exact hbound.progresses (hstream.reaches (Visit.reaches_of_holds hvisit))

def strayBracket : Cursor :=
  ⟨(TokenList.ofText "let ]".toList).tokens, (TokenList.ofText "let ]".toList).eof, none⟩

theorem functions_progress_strayBracket :
    (Kind.Set.full, file) ∈ functions ∧ strayBracket.IsStream ∧
      (∃ reading, file.run strayBracket = some reading) ∧
      Visit.Progresses ⟨file, strayBracket.current, strayBracket⟩ := by
  have hfile : (Kind.Set.full, file) ∈ functions := by simp [functions, freeFunctions]
  have hstream : strayBracket.IsStream := ⟨by decide +kernel, by decide +kernel⟩
  have hall := functions_progress hfile hstream (Kind.Set.contains_full _)
  exact ⟨hfile, hstream, hall.1, hall.2 _ _ .refl⟩

end Grammar

end TdSyntax
