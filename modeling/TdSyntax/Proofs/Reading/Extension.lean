import TdSyntax.Proofs.Reading.Reports

/-!
# Readings of a longer list of tokens

A grammar sees the current token only, and skipping looks no further than to the token
where it stops.  So a reading that leaves a token over is the same whatever is appended
behind, and so is any reading if nothing is appended; it may be nested deeper as well.
-/

namespace TdSyntax

namespace Cursor

def extend (cursor : Cursor) (more : List Token) (eof : Token) : Cursor :=
  ⟨cursor.tokens ++ more, eof, cursor.reported⟩

/-- What is appended cannot be seen from the cursor. -/
def Hides (cursor : Cursor) (more : List Token) (eof : Token) : Prop :=
  cursor.tokens = [] → more = [] ∧ cursor.eof = eof

structure Reaches (cursor later : Cursor) : Prop where
  tokens : later.tokens <:+ cursor.tokens
  eof : later.eof = cursor.eof

variable {cursor later last : Cursor} {more : List Token} {eof : Token}

theorem Reaches.refl (cursor : Cursor) : cursor.Reaches cursor := ⟨List.suffix_rfl, rfl⟩

theorem Reaches.trans (h : cursor.Reaches later) (h' : later.Reaches last) :
    cursor.Reaches last :=
  ⟨h'.tokens.trans h.tokens, h'.eof.trans h.eof⟩

theorem Reaches.hides (h : cursor.Reaches later) (hlater : later.Hides more eof) :
    cursor.Hides more eof := by
  intro hnil
  have hempty : later.tokens = [] := by
    apply List.suffix_nil.1
    rw [← hnil]
    exact h.tokens
  obtain ⟨hmore, heof⟩ := hlater hempty
  exact ⟨hmore, h.eof.symm.trans heof⟩

theorem current_extend (h : cursor.Hides more eof) :
    (cursor.extend more eof).current = cursor.current := by
  unfold current extend
  cases htokens : cursor.tokens with
  | nil =>
      obtain ⟨rfl, rfl⟩ := h htokens
      rfl
  | cons token rest => rfl

theorem kind_extend (h : cursor.Hides more eof) :
    (cursor.extend more eof).kind = cursor.kind := by
  rw [kind, kind, current_extend h]

theorem extend_nil (h : cursor.eof = eof) : cursor.extend [] eof = cursor := by
  rw [extend, List.append_nil, ← h]

end Cursor

namespace Reading

def extend (reading : Reading) (more : List Token) (eof : Token) : Reading :=
  { reading with cursor := reading.cursor.extend more eof }

theorem taking_extend {count : Nat} {cursor : Cursor} {more : List Token} {eof : Token}
    (h : (taking count cursor).cursor.Hides more eof) :
    taking count (cursor.extend more eof) = (taking count cursor).extend more eof := by
  by_cases hle : count ≤ cursor.tokens.length
  · simp only [taking, extend, Cursor.extend, List.take_append_of_le_length hle,
      List.drop_append_of_le_length hle]
  · obtain ⟨rfl, rfl⟩ := h (List.drop_eq_nil_of_le (by omega))
    simp [taking, extend, Cursor.extend]

theorem extend_nil {reading : Reading} {eof : Token} (h : reading.cursor.eof = eof) :
    reading.extend [] eof = reading := by
  rw [extend, Cursor.extend_nil h]

end Reading

namespace Recovery

theorem lengthToStatement_append {inBlock : Bool} {depth : Nat} {kinds : List Kind}
    (h : lengthToStatement inBlock depth kinds < kinds.length) (others : List Kind) :
    lengthToStatement inBlock depth (kinds ++ others) = lengthToStatement inBlock depth kinds := by
  -- skipping that stops within the list makes the same choices at every token of it
  induction kinds generalizing depth with
  | nil =>
      simp only [List.length_nil] at h
      omega
  | cons kind kinds ih =>
      rw [List.cons_append, lengthToStatement, lengthToStatement]
      rw [lengthToStatement, List.length_cons] at h
      split
      · rename_i hcloses
        rw [if_pos hcloses] at h
        split
        · rfl
        · rename_i hinside
          rw [if_neg hinside] at h
          rw [ih (by omega)]
      · rename_i hcloses
        rw [if_neg hcloses] at h
        split
        · rename_i hopens
          rw [if_pos hopens] at h
          rw [ih (by omega)]
        · rename_i hopens
          rw [if_neg hopens] at h
          split
          · rfl
          · rename_i hstarts
            rw [if_neg hstarts] at h
            rw [ih (by omega)]

theorem lengthToBodyItem_append {kinds : List Kind} (h : lengthToBodyItem kinds < kinds.length)
    (others : List Kind) : lengthToBodyItem (kinds ++ others) = lengthToBodyItem kinds := by
  induction kinds with
  | nil =>
      simp only [List.length_nil] at h
      omega
  | cons kind kinds ih =>
      cases kinds with
      | nil =>
          simp only [lengthToBodyItem, List.length_cons, List.length_nil] at h
          split at h <;> omega
      | cons next kinds =>
          have hhead : (next :: kinds ++ others).head? = (next :: kinds).head? := rfl
          rw [List.cons_append, lengthToBodyItem, lengthToBodyItem, hhead]
          rw [lengthToBodyItem, List.length_cons] at h
          split
          · rfl
          · rename_i hgoes
            rw [if_neg hgoes] at h
            rw [ih (by omega)]

theorem takeWhile_length_append {holds : Kind → Bool} {kinds : List Kind}
    (h : (kinds.takeWhile holds).length < kinds.length) (others : List Kind) :
    (kinds ++ others).takeWhile holds = kinds.takeWhile holds := by
  rw [List.takeWhile_append, if_neg (by omega)]

theorem length_append {recovery : Recovery} {kinds : List Kind}
    (h : recovery.length kinds < kinds.length) (others : List Kind) :
    recovery.length (kinds ++ others) = recovery.length kinds := by
  cases recovery with
  | upTo stops => exact congrArg List.length (takeWhile_length_append h others)
  | toStatement inBlock => exact lengthToStatement_append h others
  | toBodyItem => exact lengthToBodyItem_append h others

theorem length_extend {recovery : Recovery} {cursor : Cursor} {more : List Token} {eof : Token}
    (h : (Reading.taking (recovery.length (cursor.tokens.map Token.kind)) cursor).cursor.Hides
      more eof) :
    recovery.length ((cursor.extend more eof).tokens.map Token.kind) =
      recovery.length (cursor.tokens.map Token.kind) := by
  by_cases hlast : recovery.length (cursor.tokens.map Token.kind) < cursor.tokens.length
  · rw [show (cursor.extend more eof).tokens = cursor.tokens ++ more from rfl, List.map_append,
      length_append (by simpa using hlast)]
  · obtain ⟨rfl, -⟩ := h (List.drop_eq_nil_of_le (by omega))
    simp [Cursor.extend]

end Recovery

def Reader.Advances (reader : Reader) : Prop :=
  reader.Reports fun cursor _ later => cursor.Reaches later

theorem Cursor.reporting_reaches :
    Reporting (fun _ => True) (fun _ => True) fun cursor _ later => cursor.Reaches later where
  nil := Cursor.Reaches.refl
  append := Cursor.Reaches.trans
  taking count cursor := ⟨List.drop_suffix count cursor.tokens, rfl⟩
  complaint _ _ := ⟨List.suffix_rfl, rfl⟩
  note _ _ _ := ⟨List.suffix_rfl, rfl⟩

theorem Grammar.read_advances {call : Rule → Reader} (h : ∀ rule, (call rule).Advances)
    (grammar : Grammar) (mark : Token) : Reader.Advances (grammar.read call mark) :=
  Cursor.reporting_reaches.read h grammar (fun _ _ => trivial) (fun _ _ _ => trivial) mark

theorem Rule.read_advances (depth : Nat) (rule : Rule) : (Rule.read depth rule).Advances :=
  Cursor.reporting_reaches.read_rule (fun _ _ _ => trivial) (fun _ _ _ _ => trivial) depth rule

namespace Reader

/-- What the reader makes of some tokens, the wider one makes of them with more tokens
behind, if these cannot be seen where the reading ends. -/
def Extends (more : List Token) (eof : Token) (wider reader : Reader) : Prop :=
  ∀ cursor reading, reader cursor = some reading → reading.cursor.Hides more eof →
    wider (cursor.extend more eof) = some (reading.extend more eof)

variable {more : List Token} {eof : Token} {body wider : Reader}

theorem loop_extends (hbody : body.Advances) (h : wider.Extends more eof body) {rounds bound : Nat}
    (hle : rounds ≤ bound) : (loop wider bound).Extends more eof (loop body rounds) := by
  induction rounds generalizing bound with
  | zero =>
      intro cursor reading hread
      cases hread
  | succ rounds ih =>
      intro cursor reading hread hhides
      obtain ⟨bound, rfl⟩ : ∃ next, bound = next + 1 := ⟨bound - 1, by omega⟩
      obtain ⟨first, hfirst, hread⟩ := loop_succ_eq_some_iff.1 hread
      apply loop_succ_eq_some_iff.2
      split at hread
      · rename_i haccepted
        obtain ⟨rest, hrest, rfl⟩ := hread
        have hreaches := Cursor.reporting_reaches.loop hbody rounds _ _ hrest
        refine ⟨_, h _ _ hfirst (hreaches.hides hhides), ?_⟩
        rw [if_pos (by exact haccepted)]
        exact ⟨_, ih (by omega) _ _ hrest hhides, rfl⟩
      · rename_i hrejected
        subst hread
        refine ⟨_, h _ _ hfirst hhides, ?_⟩
        rw [if_neg (by exact hrejected)]
        rfl

theorem growAll_extends (hbody : body.Advances) (h : wider.Extends more eof body) {kind : Kind}
    {rounds bound : Nat} (hle : rounds ≤ bound) {sofar reading : Reading}
    (hread : growAll kind body rounds sofar = some reading) (hhides : reading.cursor.Hides more eof) :
    growAll kind wider bound (sofar.extend more eof) = some (reading.extend more eof) := by
  induction rounds generalizing bound sofar with
  | zero => cases hread
  | succ rounds ih =>
      obtain ⟨bound, rfl⟩ : ∃ next, bound = next + 1 := ⟨bound - 1, by omega⟩
      obtain ⟨next, hnext, hread⟩ := growAll_succ_eq_some_iff.1 hread
      apply growAll_succ_eq_some_iff.2
      split at hread
      · rename_i haccepted
        have hreaches := Cursor.reporting_reaches.growAll hbody rounds (.refl _) hread
        refine ⟨_, h _ _ hnext (hreaches.hides hhides), ?_⟩
        rw [if_pos (by exact haccepted)]
        exact ih (by omega) hread
      · rename_i hrejected
        subst hread
        refine ⟨_, h _ _ hnext hhides, ?_⟩
        rw [if_neg (by exact hrejected)]
        rfl

end Reader

namespace Grammar

section

variable {more : List Token} {eof mark : Token} {call wider : Rule → Reader} {first rest : Grammar}
  {kind : Kind} (hrest : Reader.Advances (rest.read call mark))
  (ihFirst : Reader.Extends more eof (first.read wider mark) (first.read call mark))
  (ihRest : Reader.Extends more eof (rest.read wider mark) (rest.read call mark))
include hrest ihFirst ihRest

theorem grow_extends : Reader.Extends more eof ((grow first kind rest).read wider mark)
    ((grow first kind rest).read call mark) := by
  intro cursor reading hread hhides
  obtain ⟨one, hone, hread⟩ := read_grow_eq_some_iff.1 hread
  apply read_grow_eq_some_iff.2
  split at hread
  · rename_i haccepted
    obtain ⟨two, htwo, rfl⟩ := hread
    have hlast : two.cursor.Hides more eof := by
      split at hhides
      · exact hhides
      · exact hhides
    refine ⟨_, ihFirst _ _ hone ((hrest _ _ htwo).hides hlast), ?_⟩
    rw [if_pos (by exact haccepted)]
    refine ⟨_, ihRest _ _ htwo hlast, ?_⟩
    rw [show (two.extend more eof).accepted = two.accepted from rfl]
    split <;> rfl
  · rename_i hrejected
    subst hread
    refine ⟨_, ihFirst _ _ hone hhides, ?_⟩
    rw [if_neg (by exact hrejected)]

theorem growAll_extends : Reader.Extends more eof ((growAll first kind rest).read wider mark)
    ((growAll first kind rest).read call mark) := by
  intro cursor reading hread hhides
  obtain ⟨one, hone, hread⟩ := read_growAll_eq_some_iff.1 hread
  apply read_growAll_eq_some_iff.2
  split at hread
  · rename_i haccepted
    have hreaches := Cursor.reporting_reaches.growAll hrest _ (.refl _) hread
    refine ⟨_, ihFirst _ _ hone (hreaches.hides hhides), ?_⟩
    rw [if_pos (by exact haccepted)]
    refine Reader.growAll_extends hrest ihRest ?_ hread hhides
    simp [Reader.rounds, Reading.extend, Cursor.extend]
  · rename_i hrejected
    subst hread
    refine ⟨_, ihFirst _ _ hone hhides, ?_⟩
    rw [if_neg (by exact hrejected)]

end

/-- What the grammar makes of some tokens, it makes of them with more tokens behind. -/
theorem read_extends (more : List Token) (eof : Token) {call wider : Rule → Reader}
    (hcall : ∀ rule, (call rule).Advances)
    (hwider : ∀ rule, (wider rule).Extends more eof (call rule)) (grammar : Grammar)
    (mark : Token) : Reader.Extends more eof (grammar.read wider mark) (grammar.read call mark) := by
  induction grammar generalizing mark with
  | accept | reject =>
      intro cursor reading hread _
      cases hread
      rfl
  | unreachable =>
      intro cursor reading hread _
      cases hread
  | bump =>
      intro cursor reading hread hhides
      cases hread
      exact congrArg some (Reading.taking_extend hhides)
  | skip recovery =>
      intro cursor reading hread hhides
      cases hread
      simp only [read, Recovery.length_extend hhides]
      exact congrArg some (Reading.taking_extend hhides)
  | seq first second ihFirst ihSecond =>
      intro cursor reading hread hhides
      obtain ⟨one, hone, two, htwo, rfl⟩ := read_seq_eq_some_iff.1 hread
      have hreaches := read_advances hcall second mark _ _ htwo
      have hfirst := ihFirst mark _ _ hone (hreaches.hides hhides)
      exact read_seq_eq_some_iff.2 ⟨_, hfirst, _, ihSecond mark _ _ htwo hhides, rfl⟩
  | ifOk test yes no ihTest ihYes ihNo =>
      intro cursor reading hread hhides
      obtain ⟨one, hone, two, htwo, rfl⟩ := read_ifOk_eq_some_iff.1 hread
      have hreaches := read_advances hcall _ mark _ _ htwo
      have htest := ihTest mark _ _ hone (hreaches.hides hhides)
      refine read_ifOk_eq_some_iff.2 ⟨_, htest, two.extend more eof, ?_, rfl⟩
      rw [show (one.extend more eof).accepted = one.accepted from rfl]
      split at htwo
      · rename_i haccepted
        rw [if_pos haccepted]
        exact ihYes mark _ _ htwo hhides
      · rename_i hrejected
        rw [if_neg hrejected]
        exact ihNo mark _ _ htwo hhides
  | ifAt kinds yes no ihYes ihNo =>
      intro cursor reading hread hhides
      have hstart := (read_advances hcall _ mark _ _ hread).hides hhides
      rw [read_ifAt] at hread
      rw [read_ifAt, Cursor.kind_extend hstart]
      split at hread
      · rename_i hyes
        rw [if_pos hyes]
        exact ihYes mark _ _ hread hhides
      · rename_i hno
        rw [if_neg hno]
        exact ihNo mark _ _ hread hhides
  | ifText holds yes no ihYes ihNo =>
      intro cursor reading hread hhides
      have hstart := (read_advances hcall _ mark _ _ hread).hides hhides
      rw [read_ifText] at hread
      rw [read_ifText, Cursor.current_extend hstart]
      split at hread
      · rename_i hyes
        rw [if_pos hyes]
        exact ihYes mark _ _ hread hhides
      · rename_i hno
        rw [if_neg hno]
        exact ihNo mark _ _ hread hhides
  | complain problem =>
      intro cursor reading hread hhides
      have hstart := (read_advances hcall _ mark _ _ hread).hides hhides
      simp only [read] at hread ⊢
      rw [Cursor.current_extend hstart]
      split at hread
      · rename_i hreported
        cases hread
        rw [if_pos (by exact hreported)]
        rfl
      · rename_i hreported
        cases hread
        rw [if_neg (by exact hreported)]
        rfl
  | note place problem =>
      intro cursor reading hread hhides
      have hstart := (read_advances hcall _ mark _ _ hread).hides hhides
      cases hread
      simp only [read, Cursor.current_extend hstart]
      rfl
  | marked body ih =>
      intro cursor reading hread hhides
      have hstart := (read_advances hcall _ mark _ _ hread).hides hhides
      simp only [read, Cursor.current_extend hstart]
      exact ih cursor.current _ _ hread hhides
  | group body accepted rejected ih =>
      intro cursor reading hread hhides
      obtain ⟨inner, hinner, rfl⟩ := read_group_eq_some_iff.1 hread
      exact read_group_eq_some_iff.2 ⟨_, ih mark _ _ hinner hhides, rfl⟩
  | grow first kind rest ihFirst ihRest =>
      exact grow_extends (read_advances hcall rest mark) (ihFirst mark) (ihRest mark)
  | growAll first kind rest ihFirst ihRest =>
      exact growAll_extends (read_advances hcall rest mark) (ihFirst mark) (ihRest mark)
  | loop body ih =>
      intro cursor reading hread hhides
      refine Reader.loop_extends (read_advances hcall body mark) (ih mark) ?_ _ _ hread hhides
      simp [Reader.rounds, Cursor.extend]
  | call rule => exact hwider rule

end Grammar

theorem Rule.read_extends (more : List Token) (eof : Token) {depth bound : Nat}
    (hle : depth ≤ bound) (rule : Rule) :
    (Rule.read bound rule).Extends more eof (Rule.read depth rule) := by
  induction depth generalizing bound rule with
  | zero =>
      intro cursor reading hread
      cases hread
  | succ depth ih =>
      intro cursor reading hread hhides
      obtain ⟨bound, rfl⟩ : ∃ next, bound = next + 1 := ⟨bound - 1, by omega⟩
      have hstart := (Rule.read_advances (depth + 1) rule cursor reading hread).hides hhides
      have hle : depth ≤ bound := by omega
      have hextends := Grammar.read_extends more eof (Rule.read_advances depth) (ih hle)
        rule.grammar cursor.current cursor reading hread hhides
      rw [Rule.read, Cursor.current_extend hstart]
      exact hextends

theorem Grammar.read_deeper {depth bound : Nat} (hle : depth ≤ bound) {grammar : Grammar}
    {mark : Token} {cursor : Cursor} {reading : Reading}
    (h : grammar.read (Rule.read depth) mark cursor = some reading) :
    grammar.read (Rule.read bound) mark cursor = some reading := by
  have hreaches := Grammar.read_advances (Rule.read_advances depth) grammar _ _ _ h
  have hextends := Grammar.read_extends [] cursor.eof (Rule.read_advances depth)
    (Rule.read_extends [] cursor.eof hle) grammar _ _ _ h fun _ => ⟨rfl, hreaches.eof⟩
  rwa [Cursor.extend_nil rfl, Reading.extend_nil hreaches.eof] at hextends

end TdSyntax
