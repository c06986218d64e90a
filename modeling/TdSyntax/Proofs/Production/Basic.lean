import TdSyntax.Proofs.Reading.Flow

/-!
# Productions

A production is a regular expression over kinds: it tells which kinds the children of
a node may have, one behind the other.  What a production leaves for the other children
behind a first one is its rest, so a list of children is checked from left to right.
-/

namespace TdSyntax

inductive Delimiter where
  | parentheses
  | brackets
  | braces
  | angles
  | quotes
  deriving DecidableEq, Repr

namespace Delimiter

def opening : Delimiter → Kind
  | parentheses => .leftParen
  | brackets => .leftBracket
  | braces => .leftBrace
  | angles => .leftAngle
  | quotes => .doubleQuote

def closing : Delimiter → Kind
  | parentheses => .rightParen
  | brackets => .rightBracket
  | braces => .rightBrace
  | angles => .rightAngle
  | quotes => .doubleQuote

end Delimiter

inductive Production where
  | void
  | done
  | one (kinds : Kind.Set)
  | seq (first second : Production)
  | either (first second : Production)
  | many (item : Production)
  | enclosed (delimiter : Delimiter) (inner : Production)
  deriving DecidableEq, Repr

namespace Production

inductive Fits : Production → List Kind → Prop
  | done : Fits .done []
  | one {kinds : Kind.Set} {kind : Kind} (h : kinds.contains kind = true) : Fits (.one kinds) [kind]
  | seq {first second : Production} {kinds others : List Kind} (h : Fits first kinds)
      (h' : Fits second others) : Fits (.seq first second) (kinds ++ others)
  | left {first second : Production} {kinds : List Kind} (h : Fits first kinds) :
      Fits (.either first second) kinds
  | right {first second : Production} {kinds : List Kind} (h : Fits second kinds) :
      Fits (.either first second) kinds
  | stop {item : Production} : Fits (.many item) []
  | more {item : Production} {kinds others : List Kind} (h : Fits item kinds)
      (h' : Fits (.many item) others) : Fits (.many item) (kinds ++ others)
  | enclosed {delimiter : Delimiter} {inner : Production} {kinds : List Kind}
      (h : Fits inner kinds) :
      Fits (.enclosed delimiter inner) (delimiter.opening :: (kinds ++ [delimiter.closing]))

def isNullable : Production → Bool
  | .void | .one _ | .enclosed _ _ => false
  | .done | .many _ => true
  | .seq first second => isNullable first && isNullable second
  | .either first second => isNullable first || isNullable second

theorem fits_nil {production : Production} (h : production.isNullable = true) :
    production.Fits [] := by
  induction production with
  | void | one | enclosed => cases h
  | done => exact .done
  | many => exact .stop
  | seq first second ihFirst ihSecond =>
      simp only [isNullable, Bool.and_eq_true] at h
      exact .seq (ihFirst h.1) (ihSecond h.2)
  | either first second ihFirst ihSecond =>
      simp only [isNullable, Bool.or_eq_true] at h
      rcases h with h | h
      · exact .left (ihFirst h)
      · exact .right (ihSecond h)

def andThen : Production → Production → Production
  | .void, _ => .void
  | .done, second => second
  | .seq first rest, second => .seq first (andThen rest second)
  | first, second => .seq first second

theorem fits_andThen {first second : Production} {kinds : List Kind}
    (h : (first.andThen second).Fits kinds) : (Production.seq first second).Fits kinds := by
  induction first generalizing kinds with
  | void => cases h
  | done => exact .seq .done h
  | one | either | many | enclosed => exact h
  | seq first rest _ ih =>
      cases h with
      | seq hfirst hboth =>
          cases ih hboth with
          | seq hrest hsecond =>
              rw [← List.append_assoc]
              exact .seq (.seq hfirst hrest) hsecond

def orElse (first second : Production) : Production :=
  if first = .void then second
  else if second = .void ∨ first = second then first
  else .either first second

theorem fits_orElse {first second : Production} {kinds : List Kind}
    (h : (first.orElse second).Fits kinds) : first.Fits kinds ∨ second.Fits kinds := by
  unfold orElse at h
  split at h
  · exact .inr h
  · split at h
    · exact .inl h
    · cases h with
      | left h => exact .inl h
      | right h => exact .inr h

/-- What is left behind a first child, whichever of some kinds it has. -/
def rest (kinds : Kind.Set) : Production → Production
  | .void | .done => .void
  | .one among => if (kinds.diff among).isEmpty then .done else .void
  | .seq first second =>
      ((rest kinds first).andThen second).orElse
        (if first.isNullable then rest kinds second else .void)
  | .either first second => (rest kinds first).orElse (rest kinds second)
  | .many item => (rest kinds item).andThen (.many item)
  | .enclosed delimiter inner =>
      if (kinds.diff (.singleton delimiter.opening)).isEmpty then
        inner.andThen (.one (.singleton delimiter.closing))
      else .void

theorem contains_of_diff_isEmpty {kinds among : Kind.Set} (h : (kinds.diff among).isEmpty = true)
    {kind : Kind} (hkind : kinds.contains kind = true) : among.contains kind = true := by
  simpa [hkind] using Kind.Set.contains_of_isEmpty h kind

theorem fits_cons {production : Production} {kinds : Kind.Set} {kind : Kind} {others : List Kind}
    (hkind : kinds.contains kind = true) (h : (production.rest kinds).Fits others) :
    production.Fits (kind :: others) := by
  induction production generalizing others with
  | void | done => cases h
  | one among =>
      simp only [rest] at h
      split at h
      case isTrue hempty =>
        cases h
        exact .one (contains_of_diff_isEmpty hempty hkind)
      case isFalse => cases h
  | seq first second ihFirst ihSecond =>
      rcases fits_orElse h with h | h
      · cases fits_andThen h with
        | seq hfirst hsecond => exact .seq (ihFirst hfirst) hsecond
      · split at h
        case isTrue hnullable => exact .seq (fits_nil hnullable) (ihSecond h)
        case isFalse => cases h
  | either first second ihFirst ihSecond =>
      rcases fits_orElse h with h | h
      · exact .left (ihFirst h)
      · exact .right (ihSecond h)
  | many item ih =>
      cases fits_andThen h with
      | seq hitem hmany => exact .more (ih hitem) hmany
  | enclosed delimiter inner ih =>
      simp only [rest] at h
      split at h
      case isTrue hempty =>
        have hopening := contains_of_diff_isEmpty hempty hkind
        simp only [Kind.Set.contains_singleton, decide_eq_true_eq] at hopening
        subst hopening
        cases fits_andThen h with
        | seq hinner hclosing =>
            cases hclosing with
            | one hclosing =>
                simp only [Kind.Set.contains_singleton, decide_eq_true_eq] at hclosing
                subst hclosing
                exact .enclosed hinner
      case isFalse => cases h

end Production

end TdSyntax
