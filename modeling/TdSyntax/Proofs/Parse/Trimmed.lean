import TdSyntax.Proofs.Parse.Lossless
import TdSyntax.Proofs.Tree.Alike
import TdSyntax.Proofs.Tree.Covered

/-!
# Nodes without the trivia at their ends

The range of a node without trivia goes from its first token to its last one.  A node below
the root ends with a token of the text, so its range leaves out exactly the trivia at both of
its ends.  The root ends with the end of the file, and what trivia the last token of the text
owns stands in front of that: the range of the root holds them.
-/

namespace TdSyntax

namespace Node

/-- The tokens of a node that are there in the text; the end of the file is not. -/
def wordTokens (node : Node) : List NodeToken := node.tokens.filter fun token => token.kind != .eof

/-- From the first token of a node to the last one: the node begins and ends with their own
texts, and what is left out is the trivia in front of the one and behind the other.  No trivia
covers the first or the last byte. -/
structure Trimmed (node : Node) (first last : NodeToken) : Prop where
  start : node.span.start = first.span.start
  stop : node.span.stop = last.span.stop
  text : ∃ before own after, first.leadingTrivia = .ok before ∧ last.trailingTrivia = .ok after ∧
    node.text = .ok own ∧
    node.fullText =
      .ok (before.flatMap PlacedTrivia.text ++ own ++ after.flatMap PlacedTrivia.text)
  edges : ∀ token ∈ node.tokens, ∀ trivia, token.Owns trivia →
    ¬ (trivia.span.start ≤ node.span.start ∧ node.span.start < trivia.span.stop) ∧
      ¬ (trivia.span.start < node.span.stop ∧ node.span.stop ≤ trivia.span.stop)

end Node

theorem NodeToken.Shows.not_owns {placed : NodeToken} {token : Token} (h : placed.Shows token)
    (hleading : token.leading = []) (htrailing : token.trailing = []) {trivia : PlacedTrivia} :
    ¬ placed.Owns trivia := by
  have hnone {found pieces : List PlacedTrivia} {result : Except Fault (List PlacedTrivia)}
      (hfound : result = .ok found) (hcontent : found.map PlacedTrivia.content = [])
      (hpieces : result = .ok pieces) : pieces = [] := by
    obtain rfl := Except.ok.inj (hfound.symm.trans hpieces)
    exact List.map_eq_nil_iff.1 hcontent
  obtain ⟨before, hbefore, hbeforeContent⟩ := h.leading
  obtain ⟨after, hafter, hafterContent⟩ := h.trailing
  rintro ⟨pieces, hpieces | hpieces, hmem⟩
  · rw [hnone hbefore (hbeforeContent.trans hleading) hpieces] at hmem
    cases hmem
  · rw [hnone hafter (hafterContent.trans htrailing) hpieces] at hmem
    cases hmem

theorem TriviaText.size_joined_eq_zero_iff {trivia : List TriviaText}
    (h : ∀ piece ∈ trivia, piece.text ≠ []) : (joined trivia).size = 0 ↔ trivia = [] := by
  constructor
  · intro hsize
    cases trivia with
    | nil => rfl
    | cons piece trivia =>
        obtain ⟨first, rest, htext⟩ := List.exists_cons_of_ne_nil (h piece List.mem_cons_self)
        have hfirst := first.utf8Size_pos
        rw [joined, List.flatMap_cons, htext, Text.size_append, Text.size_cons] at hsize
        omega
  · rintro rfl
    rfl

namespace Token

theorem exists_joined_eq {tokens : List Token} {first last : Token}
    (hfirst : tokens.head? = some first) (hlast : tokens.getLast? = some last) :
    ∃ own, joined tokens =
      TriviaText.joined first.leading ++ own ++ TriviaText.joined last.trailing := by
  obtain ⟨rest, rfl⟩ := List.head?_eq_some_iff.1 hfirst
  rcases List.eq_nil_or_concat' rest with rfl | ⟨middle, other, rfl⟩
  · obtain rfl : first = last := Option.some.inj hlast
    exact ⟨first.text, by simp [joined, fullText]⟩
  · obtain rfl : other = last := by
      rw [← List.cons_append, List.getLast?_concat] at hlast
      exact Option.some.inj hlast
    refine ⟨first.text ++ TriviaText.joined first.trailing ++ joined middle ++
      TriviaText.joined other.leading ++ other.text, ?_⟩
    simp [joined, fullText]

end Token

namespace Node

variable {node : Node} {tokens more : List Token} {first last token : Token}
  {firstPlaced lastPlaced : NodeToken}

theorem not_covers_ends {offset : Nat} (h : Token.TileFrom offset tokens)
    (hfirst : tokens.head? = some first) (hlast : tokens.getLast? = some last)
    (htexts : ∀ token ∈ tokens, token.text ≠ []) (hmem : token ∈ tokens) {trivia : Span}
    (houtside : token.fullSpan.start ≤ trivia.start ∧ trivia.stop ≤ token.start ∨
      token.stop ≤ trivia.start ∧ trivia.stop ≤ token.fullSpan.stop) :
    ¬ (trivia.start ≤ first.start ∧ first.start < trivia.stop) ∧
      ¬ (trivia.start < last.stop ∧ last.stop ≤ trivia.stop) := by
  have hfirstMem := List.mem_of_head? hfirst
  have hlastMem := List.mem_of_getLast? hlast
  have hfirstText := Token.start_lt_stop (htexts first hfirstMem)
  have hlastText := Token.start_lt_stop (htexts last hlastMem)
  have htext := Token.start_lt_stop (htexts token hmem)
  have hbehind : token = first ∨ first.stop ≤ token.fullSpan.start := by
    obtain ⟨rest, rfl⟩ := List.head?_eq_some_iff.1 hfirst
    exact (List.mem_cons.1 hmem).imp_right (Token.stop_le_of_mem_tail h token)
  have hbefore : token = last ∨ token.fullSpan.stop ≤ last.start := by
    obtain ⟨front, rfl⟩ := List.getLast?_eq_some_iff.1 hlast
    rcases List.mem_append.1 hmem with hfront | hend
    · exact .inr (Token.le_start_of_mem_front h token hfront)
    · exact .inl (List.mem_singleton.1 hend)
  have hstart := token.fullSpan_start_le
  have hstop := token.stop_le_fullSpan
  constructor
  · rintro ⟨hle, hlt⟩
    rcases hbehind with rfl | hbehind <;> omega
  · rintro ⟨hlt, hle⟩
    rcases hbefore with rfl | hbefore <;> omega

theorem Trimmed.of_covers (h : (Element.node node).Covers (tokens ++ more))
    (hmore : ∀ token ∈ more, token.fullText = [] ∧ token.leading = [] ∧ token.trailing = [])
    (htexts : ∀ token ∈ tokens, token.text ≠ [])
    (hfirst : tokens.head? = some first) (hlast : tokens.getLast? = some last)
    (hspan : node.span = ⟨first.start, last.stop⟩)
    (hfirstShows : firstPlaced.Shows first) (hlastShows : lastPlaced.Shows last) :
    node.Trimmed firstPlaced lastPlaced := by
  obtain ⟨own, hown⟩ := Token.exists_joined_eq hfirst hlast
  have hjoined : Token.joined (tokens ++ more) = Token.joined tokens := by
    have hnothing : Token.joined more = [] := List.flatMap_eq_nil_iff.2 fun token hmem =>
      (hmore token hmem).1
    rw [Token.joined_append, hnothing, List.append_nil]
  have htiles : Token.TileFrom node.offset tokens := (Token.tileFrom_append.1 h.tiles).1
  have hsource : node.source.HasAt node.offset (Token.joined tokens) := hjoined ▸ h.source
  obtain ⟨rest, hrest⟩ := List.head?_eq_some_iff.1 hfirst
  obtain ⟨front, hfront⟩ := List.getLast?_eq_some_iff.1 hlast
  have hstart : first.start = node.offset + (TriviaText.joined first.leading).size := by
    rw [hrest] at htiles
    exact htiles.1
  have hstop : last.stop = first.start + own.size := by
    have hend := Token.stop_eq_of_tileFrom (hfront ▸ htiles)
    rw [← hfront, hown, Text.size_append, Text.size_append] at hend
    omega
  have hplace : node.source.HasAt first.start own := by
    rw [hown] at hsource
    exact hstart ▸ hsource.left.right
  obtain ⟨before, hbefore, hleading⟩ := hfirstShows.leading
  obtain ⟨after, hafter, htrailing⟩ := hlastShows.trailing
  refine ⟨?_, ?_, ⟨before, own, after, hbefore, hafter, ?_, ?_⟩, ?_⟩
  · rw [hspan, hfirstShows.span]
    rfl
  · rw [hspan, hlastShows.span]
    rfl
  · rw [Node.text, hspan, hstop]
    exact hplace.slice
  · have hslice : node.fullText = .ok (Token.joined (tokens ++ more)) := h.slice
    rw [hslice, hjoined, hown, ← hleading, ← htrailing, TriviaText.joined_map_content,
      TriviaText.joined_map_content]
  · intro placed hplaced trivia howns
    obtain ⟨token, htoken, hcovers⟩ := exists_related h.shows_tokens.flip hplaced
    rcases List.mem_append.1 htoken with hmem | hmem
    · rw [hspan]
      exact not_covers_ends htiles hfirst hlast htexts hmem (hcovers.shows.outside howns)
    · exact absurd howns (hcovers.shows.not_owns (hmore token hmem).2.1 (hmore token hmem).2.2)

theorem shows_wordTokens (h : (Element.node node).Covers (tokens ++ more))
    (hkinds : ∀ token ∈ tokens, token.kind ≠ .eof) (hmore : ∀ token ∈ more, token.kind = .eof) :
    List.Forall₂ NodeToken.Shows node.wordTokens tokens := by
  have hall : List.Forall₂ NodeToken.Shows node.tokens (tokens ++ more) :=
    h.shows_tokens.imp fun _ _ hcovers => hcovers.shows
  have hfilter : (tokens ++ more).filter (fun token => token.kind != .eof) = tokens := by
    rw [List.filter_append, List.filter_eq_self.2 fun token hmem => by simp [hkinds token hmem],
      List.filter_eq_nil_iff.2 fun token hmem => by simp [hmore token hmem], List.append_nil]
  rw [← hfilter]
  refine List.rel_filter ?_ hall
  intro placed token hshows
  simp only [NodeToken.kind, hshows.leaf, Token.leaf]

theorem span_within (h : (Element.node node).Covers tokens) (hfirst : tokens.head? = some first)
    (hlast : tokens.getLast? = some last) (htext : first.text ≠ []) :
    node.fullSpan.start ≤ node.span.start ∧ node.span.start < node.span.stop ∧
      node.span.stop ≤ node.fullSpan.stop := by
  have hspan := h.span_eq hfirst hlast
  have hfull : node.fullSpan = ⟨node.offset, node.offset + (Token.joined tokens).size⟩ := h.fullSpan
  have hwide := Token.start_lt_stop htext
  have hlastWide := last.fullSpan_start_le
  have hlastStop : last.start ≤ last.stop := Nat.le_add_right _ _
  rw [hspan, hfull]
  obtain ⟨rest, rfl⟩ := List.head?_eq_some_iff.1 hfirst
  have htiles : Token.TileFrom node.offset (first :: rest) := h.tiles
  have hstart := htiles.1
  have horder : last = first ∨ first.stop ≤ last.fullSpan.start :=
    (List.mem_cons.1 (List.mem_of_getLast? hlast)).imp_right
      (Token.stop_le_of_mem_tail htiles last)
  obtain ⟨front, hfront⟩ := List.getLast?_eq_some_iff.1 hlast
  have hstop := Token.stop_eq_of_tileFrom (hfront ▸ htiles)
  rw [← hfront] at hstop
  refine ⟨by simp only; omega, ?_, by simp only; omega⟩
  rcases horder with rfl | horder
  · exact hwide
  · simp only
    omega

theorem shows_ends (h : List.Forall₂ NodeToken.Shows node.wordTokens tokens)
    (hfirst : node.wordTokens.head? = some firstPlaced)
    (hlast : node.wordTokens.getLast? = some lastPlaced) :
    ∃ first last, tokens.head? = some first ∧ tokens.getLast? = some last ∧
      firstPlaced.Shows first ∧ lastPlaced.Shows last := by
  obtain ⟨first, hhead, hfirstShows⟩ := found (rel_head? h.flip) hfirst
  have hreverse := List.forall₂_reverse_iff.2 h
  rw [← List.head?_reverse] at hlast
  obtain ⟨last, hend, hlastShows⟩ := found (rel_head? hreverse.flip) hlast
  rw [List.head?_reverse] at hend
  exact ⟨first, last, hhead, hend, hfirstShows, hlastShows⟩

end Node

namespace Parse

theorem covers_root {text : Text} {drafts : List Draft}
    (h : Draft.tokensAll drafts = (TokenList.ofText text).tokens) :
    (Element.node (SourceTree.root ⟨.sourceFile,
      Draft.treeAll (drafts ++ [.token (TokenList.ofText text).eof]), text⟩)).Covers
        (tokenize text) := by
  obtain ⟨htiles, hjoined⟩ := tokenize_tiles text
  exact ⟨(textAll_eq h).1, ⟨[], [], by rw [hjoined]; exact (List.append_nil text).symm, rfl⟩,
    htiles⟩

theorem kind_ne_eof_of_mem_leaves {text : Text} {drafts : List Draft}
    (h : Draft.tokensAll drafts = (TokenList.ofText text).tokens) {child : Node}
    (hchild : child.tree ∈ Draft.treeAll (drafts ++ [.token (TokenList.ofText text).eof])) :
    ∀ leaf ∈ child.tree.leaves, leaf.kind ≠ .eof := by
  rw [Draft.treeAll_append, List.mem_append] at hchild
  rcases hchild with hmem | hlast
  · intro leaf hleaf
    have hall : leaf ∈ Tree.leavesAll (Draft.treeAll drafts) := by
      rw [Tree.leavesAll_eq_flatMap]
      exact List.mem_flatMap.2 ⟨_, hmem, hleaf⟩
    rw [Draft.leavesAll_treeAll, h] at hall
    obtain ⟨token, htoken, rfl⟩ := List.mem_map.1 hall
    exact TokenList.kind_ne_eof _ token htoken
  · cases List.mem_singleton.1 hlast

theorem ofText_covers (text : Text) :
    ∃ parse, Parse.ofText text = .ok parse ∧
      (Element.node parse.root).Covers (tokenize text) ∧
      ∀ node ∈ parse.root.descendants, node ≠ parse.root →
        ∃ tokens ⊆ (TokenList.ofText text).tokens, (Element.node node).Covers tokens := by
  obtain ⟨reading, -, htokens, hparse⟩ := ofText_eq text
  have hroot := covers_root htokens
  refine ⟨_, hparse, hroot, fun node hnode hne => ?_⟩
  rcases Node.mem_descendants_iff.1 hnode with heq | ⟨child, hchild, hbelow⟩
  · exact absurd heq hne
  obtain ⟨part, hpart, hcovers⟩ := hroot.of_mem_nodes hchild
  have hinside : part ⊆ (TokenList.ofText text).tokens := by
    intro token hmem
    have hleaf : token.leaf ∈ child.tree.leaves := hcovers.leaves ▸ List.mem_map_of_mem hmem
    have hkind := kind_ne_eof_of_mem_leaves htokens (Node.tree_mem_children hchild) _ hleaf
    rcases List.mem_append.1 (hpart hmem) with htoken | hlast
    · exact htoken
    · rw [List.mem_singleton.1 hlast] at hkind
      exact absurd (TokenList.eof_kind (Lexer.start text)) hkind
  obtain ⟨own, hown, hnodeCovers⟩ := hcovers.of_mem_descendants hbelow
  exact ⟨own, List.Subset.trans hown hinside, hnodeCovers⟩

theorem stop_of_getLast? {text : Text} {token : Token}
    (h : (tokenize text).getLast? = some token) :
    token.stop + (TriviaText.joined token.trailing).size = text.size := by
  obtain ⟨htiles, hjoined⟩ := tokenize_tiles text
  obtain ⟨front, hfront⟩ := List.getLast?_eq_some_iff.1 h
  have hstop := Token.stop_eq_of_tileFrom (hfront ▸ htiles)
  rw [← hfront, hjoined] at hstop
  omega

theorem eof_empty (text : Text) (htokens : (TokenList.ofText text).tokens ≠ []) :
    (TokenList.ofText text).eof.fullText = [] ∧ (TokenList.ofText text).eof.leading = [] ∧
      (TokenList.ofText text).eof.trailing = [] ∧
      (TokenList.ofText text).eof.stop = text.size := by
  have hspan := TokenList.eof_span (Lexer.start text)
  rw [show (Lexer.start text).offset = 0 from rfl, Nat.zero_add] at hspan
  have hstart : (TokenList.ofText text).eof.start = text.size := congrArg Span.start hspan
  have hstop : (TokenList.ofText text).eof.stop = text.size := congrArg Span.stop hspan
  have htext : (TokenList.ofText text).eof.text = [] := by
    by_contra hne
    have := Token.start_lt_stop hne
    omega
  have hleading : (TokenList.ofText text).eof.leading = [] := by
    refine TokenList.leading_of_mem_tail (Lexer.start text) _ ?_
    have htail : (TokenList.ofText text).all.tail =
        (TokenList.ofText text).tokens.tail ++ [(TokenList.ofText text).eof] :=
      List.tail_append_of_ne_nil htokens
    exact htail ▸ List.mem_append_right _ List.mem_cons_self
  have htrailing : (TokenList.ofText text).eof.trailing = [] := by
    have hend := @stop_of_getLast? text _ List.getLast?_concat
    refine (TriviaText.size_joined_eq_zero_iff fun piece hpiece => ?_).1 (by omega)
    exact TokenList.trivia_text_ne_nil (Lexer.start text) _
      (List.mem_append_right _ List.mem_cons_self) piece (List.mem_append_right _ hpiece)
  refine ⟨?_, hleading, htrailing, hstop⟩
  rw [Token.fullText, htext, hleading, htrailing]
  rfl

/-- The range of a root without trivia goes up to the end of the text, so it leaves out the
trivia of the last token only if there are none. -/
theorem root_trimmed_iff {text : Text} {root : Node} {first last : NodeToken}
    (h : (Element.node root).Covers (tokenize text))
    (hfirst : root.wordTokens.head? = some first) (hlast : root.wordTokens.getLast? = some last) :
    (root.fullSpan.start ≤ root.span.start ∧ root.span.start < root.span.stop ∧
        root.span.stop ≤ root.fullSpan.stop) ∧
      root.span = ⟨first.span.start, text.size⟩ ∧
      (root.Trimmed first last ↔ last.leaf.trailing = []) := by
  have htexts := TokenList.text_ne_nil (Lexer.start text)
  obtain ⟨one, other, hone, hother, hfirstShows, hlastShows⟩ := Node.shows_ends
    (Node.shows_wordTokens h (TokenList.kind_ne_eof (Lexer.start text)) fun token hmem =>
      List.mem_singleton.1 hmem ▸ TokenList.eof_kind (Lexer.start text)) hfirst hlast
  have htokens : (TokenList.ofText text).tokens ≠ [] := List.ne_nil_of_mem (List.mem_of_head? hone)
  obtain ⟨hempty, hleading, htrailing, hstop⟩ := eof_empty text htokens
  have hhead : (tokenize text).head? = some one := by
    rw [tokenize, TokenList.all, List.head?_append, hone]
    rfl
  have hlastStop : other.stop + (TriviaText.joined other.trailing).size = text.size := by
    obtain ⟨htiles, hjoined⟩ := tokenize_tiles text
    obtain ⟨front, hfront⟩ := List.getLast?_eq_some_iff.1 hother
    have hend := Token.stop_eq_of_tileFrom (hfront ▸ (Token.tileFrom_append.1 htiles).1)
    rw [tokenize, TokenList.all, Token.joined_append, Token.joined, Token.joined,
      List.flatMap_singleton, hempty, List.append_nil] at hjoined
    rw [← hfront, Token.joined, hjoined] at hend
    omega
  have hspan : root.span = ⟨one.start, text.size⟩ := by
    rw [h.span_eq hhead List.getLast?_concat, hstop]
  have hfirstStart : first.span.start = one.start := congrArg Span.start hfirstShows.span
  have hlastSpan : last.span.stop = other.stop := congrArg Span.stop hlastShows.span
  refine ⟨Node.span_within h hhead List.getLast?_concat (htexts one (List.mem_of_head? hone)),
    hspan.trans (by rw [hfirstStart]), ?_⟩
  rw [hlastShows.leaf, Token.leaf, List.map_eq_nil_iff]
  constructor
  · intro htrimmed
    have hend := htrimmed.stop
    rw [hspan, hlastSpan] at hend
    refine (TriviaText.size_joined_eq_zero_iff fun piece hpiece => ?_).1 (by simp only at hend; omega)
    exact TokenList.trivia_text_ne_nil (Lexer.start text) other
      (List.mem_append_left _ (List.mem_of_getLast? hother)) piece (List.mem_append_right _ hpiece)
  · intro hnone
    rw [hnone] at hlastStop
    have hmore : ∀ token ∈ [(TokenList.ofText text).eof],
        token.fullText = [] ∧ token.leading = [] ∧ token.trailing = [] :=
      List.forall_mem_singleton.2 ⟨hempty, hleading, htrailing⟩
    exact Node.Trimmed.of_covers h hmore htexts hone hother (by rw [hspan, ← hlastStop]; rfl)
      hfirstShows hlastShows

/-- A node without tokens has an empty range at its offset.  Any other node is cut to the range
from its first token to its last one, which leaves out exactly the trivia at its ends; only in
the root the trivia behind the last token remain. -/
theorem ofText_trimmed (text : Text) :
    ∃ parse, Parse.ofText text = .ok parse ∧ ∀ node ∈ parse.root.descendants,
      (node.tokens = [] → node.span = Span.empty node.offset) ∧
      ∀ first last, node.wordTokens.head? = some first → node.wordTokens.getLast? = some last →
        (node.fullSpan.start ≤ node.span.start ∧ node.span.start < node.span.stop ∧
          node.span.stop ≤ node.fullSpan.stop) ∧
        (node = parse.root → node.span = ⟨first.span.start, text.size⟩) ∧
        (node.Trimmed first last ↔ (node = parse.root → last.leaf.trailing = [])) := by
  obtain ⟨parse, hparse, hroot, hbelow⟩ := ofText_covers text
  refine ⟨parse, hparse, fun node hnode => ?_⟩
  by_cases hne : node = parse.root
  · subst hne
    refine ⟨fun hnone => ?_, fun first last hfirst hlast => ?_⟩
    · have hlength := hroot.shows_tokens.length_eq
      rw [hnone] at hlength
      simp [tokenize, TokenList.all] at hlength
    · obtain ⟨hwithin, hspan, htrimmed⟩ := root_trimmed_iff hroot hfirst hlast
      exact ⟨hwithin, fun _ => hspan, htrimmed.trans ⟨fun h _ => h, fun h => h rfl⟩⟩
  · obtain ⟨own, hown, hcovers⟩ := hbelow node hnode hne
    have hkinds := fun token hmem => TokenList.kind_ne_eof (Lexer.start text) token (hown hmem)
    have htexts := fun token hmem => TokenList.text_ne_nil (Lexer.start text) token (hown hmem)
    refine ⟨fun hnone => ?_, fun first last hfirst hlast => ?_⟩
    · have hshows := hcovers.shows_tokens
      rw [hnone] at hshows
      cases hshows
      exact hcovers.span_nil
    · have hall : (Element.node node).Covers (own ++ []) := by rwa [List.append_nil]
      obtain ⟨one, other, hone, hother, hfirstShows, hlastShows⟩ :=
        Node.shows_ends (Node.shows_wordTokens hall hkinds (List.forall_mem_nil _)) hfirst hlast
      refine ⟨Node.span_within hcovers hone hother (htexts _ (List.mem_of_head? hone)),
        fun hsame => absurd hsame hne, fun _ hsame => absurd hsame hne, fun _ => ?_⟩
      exact Node.Trimmed.of_covers hall (List.forall_mem_nil _) htexts hone hother
        (hcovers.span_eq hone hother) hfirstShows hlastShows

def endedLine : Text := "def A;\n".toList

/-- The root of a line keeps the line feed that its last token owns. -/
theorem ofText_trimmed_endedLine :
    ∃ parse, Parse.ofText endedLine = .ok parse ∧ ∃ first last,
      parse.root.wordTokens.head? = some first ∧ parse.root.wordTokens.getLast? = some last ∧
      last.span.stop = 6 ∧ parse.root.span.stop = 7 ∧ parse.root.text = .ok endedLine ∧
      ¬ parse.root.Trimmed first last := by
  have hrun : (Parse.ofText endedLine).toOption.any (fun parse =>
      decide (∃ first ∈ parse.root.wordTokens.head?, ∃ last ∈ parse.root.wordTokens.getLast?,
        last.span.stop = 6 ∧ parse.root.span.stop = 7 ∧ parse.root.text = .ok endedLine)) =
          true := by
    decide +kernel
  obtain ⟨parse, hparse⟩ := exists_ofText endedLine
  rw [hparse] at hrun
  simp only [Except.toOption, Option.any_some, decide_eq_true_eq] at hrun
  obtain ⟨first, hfirst, last, hlast, hown, hroot, htext⟩ := hrun
  refine ⟨parse, hparse, first, last, hfirst, hlast, hown, hroot, htext, fun htrimmed => ?_⟩
  have hstop := htrimmed.stop
  omega

end Parse

end TdSyntax
