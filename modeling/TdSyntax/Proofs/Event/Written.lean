import TdSyntax.Proofs.Event.Kept

/-!
# Writing a draft

A draft is written to a log without a fault, and the log keeps its tree.  A node that has grown
around another one is opened before the start of this one, which has no other node around it yet.
-/

namespace TdSyntax.Draft

def isNode : Draft → Bool
  | .token _ => false
  | _ => true

mutual

/-- Every node has a kind, and nodes grow only around nodes. -/
def WellFormed : Draft → Prop
  | .token _ => True
  | .node kind children => kind ≠ .tombstone ∧ WellFormedAll children
  | .grown kind first rest =>
      kind ≠ .tombstone ∧ isNode first = true ∧ WellFormed first ∧ WellFormedAll rest

def WellFormedAll : List Draft → Prop
  | [] => True
  | first :: rest => WellFormed first ∧ WellFormedAll rest

end

def kind : Draft → Kind
  | .token content => content.kind
  | .node kind _ => kind
  | .grown kind _ _ => kind

variable {text : Text}

mutual

theorem write_keeps : ∀ {draft : Draft} {log : Log} {ahead : List Token} {opened : List Frame}
    {items : List Item}, draft.WellFormed → log.Keeps text (draft.tokens ++ ahead) opened items →
      ∃ written place handle, draft.write log = .ok (written, place) ∧
        (draft.isNode = true → handle = some place) ∧
        written.Keeps text ahead opened (items ++ [⟨draft.tree, handle⟩])
  | .token content, log, _, _, _, _, h =>
      ⟨log.advance content, log.size, none, rfl, nofun, h.advance⟩
  | .node kind children, log, _, _, items, hw, h => by
      obtain ⟨filled, inner, hfilled, htrees, hinner⟩ := writeAll_keeps hw.2 h.start
      obtain ⟨closed, hclosed, -, hkeeps⟩ := hinner.complete hw.1
      refine ⟨closed, log.size, some log.size, ?_, fun _ => rfl, ?_⟩
      · simp only [write, hfilled, hclosed, bind, Except.bind, pure, Except.pure]
      · simpa [tree, htrees] using hkeeps
  | .grown kind first rest, log, _, _, items, ⟨hkind, hnode, hfirst, hrest⟩, h => by
      rw [tokens, List.append_assoc] at h
      -- the first draft is written as a sibling before the node around it is opened
      obtain ⟨inner, place, handle, hwritten, hhandle, hkept⟩ := write_keeps hfirst h
      obtain rfl := hhandle hnode
      obtain ⟨preceded, hpreceded, -, hopened⟩ := hkept.precede
      obtain ⟨filled, more, hfilled, htrees, hinner⟩ := writeAll_keeps hrest hopened
      obtain ⟨closed, hclosed, -, hkeeps⟩ := hinner.complete hkind
      refine ⟨closed, inner.size, some inner.size, ?_, fun _ => rfl, ?_⟩
      · simp only [write, hwritten, hpreceded, hfilled, hclosed, bind, Except.bind, pure,
          Except.pure]
      · simpa [tree, htrees] using hkeeps

theorem writeAll_keeps : ∀ {drafts : List Draft} {log : Log} {ahead : List Token}
    {opened : List Frame} {items : List Item}, WellFormedAll drafts →
      log.Keeps text (tokensAll drafts ++ ahead) opened items →
      ∃ written more, writeAll log drafts = .ok written ∧
        more.map Item.tree = treeAll drafts ∧ written.Keeps text ahead opened (items ++ more)
  | [], log, _, _, _, _, h => ⟨log, [], rfl, rfl, by simpa [tokensAll] using h⟩
  | first :: rest, log, _, _, _, hw, h => by
      rw [tokensAll, List.append_assoc] at h
      obtain ⟨inner, place, handle, hwritten, -, hkept⟩ := write_keeps hw.1 h
      obtain ⟨written, more, hall, htrees, hkeeps⟩ := writeAll_keeps hw.2 hkept
      refine ⟨written, ⟨first.tree, handle⟩ :: more, ?_, by simp [treeAll, htrees], ?_⟩
      · simp only [writeAll, hwritten, hall, bind, Except.bind]
      · simpa using hkeeps

end

/-- The log of a node over the tokens of a text is replayed to the tree of the node. -/
theorem replay_write {kind : Kind} {children : List Draft} {text : Text}
    (hw : (Draft.node kind children).WellFormed)
    (htiles : Token.TileFrom 0 (tokensAll children))
    (htext : Token.joined (tokensAll children) = text) :
    ∃ log place, (Draft.node kind children).write .empty = .ok (log, place) ∧
      log.replay text = .ok ⟨kind, treeAll children, text⟩ := by
  have hempty := Log.Keeps.empty htiles htext
  rw [← List.append_nil (tokensAll children)] at hempty
  obtain ⟨log, place, handle, hwritten, -, hkeeps⟩ := write_keeps hw hempty
  obtain ⟨calls, hcalls, hbuilt, -⟩ := hkeeps.built
  exact ⟨log, place, hwritten, (Log.replay_of_calls hcalls text).trans hbuilt.build⟩

end TdSyntax.Draft
