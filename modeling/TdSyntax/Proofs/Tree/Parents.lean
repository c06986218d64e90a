import TdSyntax.Proofs.Tree.Skipped
import TdSyntax.Tree.Parents

/-!
# Parents and ancestors

Paths tell the nodes below a root apart, and a node stands among the children of one node only.
The walk over the root keeps the nodes that are open on its stack, so the entries that it adds
are exactly the pairs of a child and its parent.  Hence the map gives for every node its parent,
and the way up from a node meets all the nodes around it and ends at the root.
-/

namespace TdSyntax

namespace Node

variable {root node child inner parent other : Node}

theorem exists_index_of_mem_nodes (h : child ∈ node.nodes) :
    ∃ index : Nat, node.elements[index]? = some (.node child) ∧
      child.path = index :: node.path := by
  obtain ⟨index, hindex⟩ := List.mem_iff_getElem?.1 (mem_nodes_iff.1 h)
  exact ⟨index, hindex, path_of_getElem? hindex⟩

theorem path_suffix_of_mem_descendants (h : node ∈ root.descendants) :
    root.path <:+ node.path := by
  obtain ⟨event, hevent, hnode⟩ := List.mem_filterMap.1 h
  cases event with
  | enter other =>
      obtain rfl := Option.some.inj hnode
      exact root.path_suffix _ hevent
  | token | leave => cases hnode

theorem length_path_lt (h : child ∈ node.nodes) (hinner : inner ∈ child.descendants) :
    node.path.length < inner.path.length := by
  obtain ⟨index, -, hpath⟩ := exists_index_of_mem_nodes h
  have hle := (path_suffix_of_mem_descendants hinner).length_le
  rw [hpath, List.length_cons] at hle
  omega

theorem eq_of_path (hnode : node ∈ root.descendants) (hother : other ∈ root.descendants)
    (hpath : node.path = other.path) : node = other := by
  induction root using Node.induction with
  | step root ih =>
      rcases mem_descendants_iff.1 hnode with rfl | ⟨child, hchild, hbelow⟩
      · rcases mem_descendants_iff.1 hother with rfl | ⟨child, hchild, hbelow⟩
        · rfl
        · have hlt := length_path_lt hchild hbelow
          rw [hpath] at hlt
          exact absurd hlt (Nat.lt_irrefl _)
      · rcases mem_descendants_iff.1 hother with rfl | ⟨sibling, hsibling, hbeside⟩
        · have hlt := length_path_lt hchild hbelow
          rw [hpath] at hlt
          exact absurd hlt (Nat.lt_irrefl _)
        · obtain ⟨index, hindex, hfirst⟩ := exists_index_of_mem_nodes hchild
          obtain ⟨place, hplace, hsecond⟩ := exists_index_of_mem_nodes hsibling
          have hleft := path_suffix_of_mem_descendants hbelow
          have hright := path_suffix_of_mem_descendants hbeside
          rw [hpath] at hleft
          have hends := (List.suffix_of_suffix_length_le hleft hright
            (by simp [hfirst, hsecond])).eq_of_length (by simp [hfirst, hsecond])
          rw [hfirst, hsecond] at hends
          obtain rfl := (List.cons.inj hends).1
          obtain rfl : child = sibling := Element.node.inj (Option.some.inj (hindex ▸ hplace))
          exact ih child hchild hbelow hbeside

theorem nodup_map_path (root : Node) : (root.descendants.map path).Nodup := by
  refine List.Nodup.map_on (fun node hnode other hother => eq_of_path hnode hother) ?_
  refine root.nodup_events.filterMap fun first second node hfirst hsecond => ?_
  cases first <;> cases second <;> cases hfirst <;> cases hsecond
  rfl

/-- A child and its parent, somewhere below a root. -/
def Links (root : Node) (entry : Node × Node) : Prop :=
  entry.2 ∈ root.descendants ∧ entry.1 ∈ entry.2.nodes

theorem Links.eq_of_path {entry link : Node × Node} (h : root.Links entry) (h' : root.Links link)
    (hpath : entry.1.path = link.1.path) : entry = link := by
  obtain ⟨child, parent⟩ := entry
  obtain ⟨inner, other⟩ := link
  obtain ⟨index, hindex, hfirst⟩ := exists_index_of_mem_nodes h.2
  obtain ⟨place, hplace, hsecond⟩ := exists_index_of_mem_nodes h'.2
  simp only at hindex hfirst hplace hsecond hpath
  rw [hfirst, hsecond] at hpath
  obtain ⟨rfl, houter⟩ := List.cons.inj hpath
  obtain rfl : parent = other := Node.eq_of_path h.1 h'.1 houter
  obtain rfl : child = inner := Element.node.inj (Option.some.inj (hindex ▸ hplace))
  rfl

theorem links_iff {entry : Node × Node} :
    node.Links entry ↔ ∃ child ∈ node.nodes, entry = (child, node) ∨ child.Links entry := by
  obtain ⟨inner, parent⟩ := entry
  constructor
  · rintro ⟨hparent, hinner⟩
    rcases mem_descendants_iff.1 hparent with rfl | ⟨child, hchild, hbelow⟩
    · exact ⟨inner, hinner, .inl rfl⟩
    · exact ⟨child, hchild, .inr ⟨hbelow, hinner⟩⟩
  · rintro ⟨child, hchild, heq | ⟨hbelow, hinner⟩⟩
    · cases heq
      exact ⟨node.mem_descendants_self, hchild⟩
    · exact ⟨mem_descendants_of_mem_nodes hchild hbelow, hinner⟩

theorem not_links_self : ¬ root.Links (root, parent) := by
  rintro ⟨hparent, hroot⟩
  have hlt := length_path_lt hroot root.mem_descendants_self
  have hle := (path_suffix_of_mem_descendants hparent).length_le
  simp only at hlt hle
  omega

theorem descendants_antisymm (h : node ∈ other.descendants) (h' : other ∈ node.descendants) :
    node = other := by
  have hpath := (path_suffix_of_mem_descendants h').eq_of_length
    (Nat.le_antisymm (path_suffix_of_mem_descendants h').length_le
      (path_suffix_of_mem_descendants h).length_le)
  exact eq_of_path h other.mem_descendants_self hpath

theorem exists_links (h : node ∈ root.descendants) (hne : node ≠ root) :
    ∃ parent, root.Links (node, parent) := by
  induction root using Node.induction with
  | step root ih =>
      rcases mem_descendants_iff.1 h with rfl | ⟨child, hchild, hbelow⟩
      · exact absurd rfl hne
      · by_cases hself : node = child
        · exact ⟨root, root.mem_descendants_self, hself ▸ hchild⟩
        · obtain ⟨parent, hparent, hnode⟩ := ih child hchild hbelow hself
          exact ⟨parent, mem_descendants_of_mem_nodes hchild hparent, hnode⟩

end Node

namespace ParentMap

open Node

variable {root node parent outer : Node} {entry : Node × Node}

/-! ## The entries of a walk -/

theorem mem_collect_events (node : Node) : ∀ (stack : List Node) (rest : List WalkEvent),
    entry ∈ collect stack (node.events ++ rest) ↔
      (∃ parent, stack.head? = some parent ∧ entry = (node, parent)) ∨ node.Links entry ∨
        entry ∈ collect stack rest := by
  induction node using Node.induction with
  | step node ih =>
      intro stack rest
      have hchildren : ∀ elements ⊆ node.elements, ∀ behind : List WalkEvent,
          entry ∈ collect (node :: stack) (elements.flatMap Element.events ++ behind) ↔
            (∃ child, .node child ∈ elements ∧ (entry = (child, node) ∨ child.Links entry)) ∨
              entry ∈ collect (node :: stack) behind := by
        intro elements hsubset behind
        induction elements with
        | nil => simp
        | cons element elements ihElements =>
            obtain ⟨hfirst, hrest⟩ := List.cons_subset.1 hsubset
            rw [List.flatMap_cons, List.append_assoc]
            cases element with
            | token inner =>
                rw [Element.events, List.singleton_append, collect, ihElements hrest]
                simp
            | node child =>
                rw [Element.events, ih child (mem_nodes_iff.2 hfirst), ihElements hrest]
                simp only [List.head?_cons, Option.some.injEq, List.mem_cons, Element.node.injEq,
                  exists_eq_left', or_and_right, exists_or, exists_eq_left, or_assoc]
      have hlinks : node.Links entry ↔ ∃ child, .node child ∈ node.elements ∧
          (entry = (child, node) ∨ child.Links entry) := by
        rw [links_iff]
        simp only [mem_nodes_iff]
      have hopen : entry ∈ (stack.head?.map fun parent => (node, parent)).toList ↔
          ∃ parent, stack.head? = some parent ∧ entry = (node, parent) := by
        rw [Option.mem_toList, Option.map_eq_some_iff]
        simp only [eq_comm]
      rw [events_eq, List.cons_append, List.append_assoc, collect, List.mem_append, hopen,
        hchildren _ (List.Subset.refl _), List.singleton_append, collect, List.tail_cons, hlinks]

theorem mem_entries_iff : entry ∈ (ofRoot root).entries ↔ root.Links entry := by
  have hmem := @mem_collect_events entry root [] []
  rw [List.append_nil] at hmem
  simpa [ofRoot, collect] using hmem

/-! ## Parents -/

theorem parent?_eq_some_iff (h : node ∈ root.descendants) :
    (ofRoot root).parent? node = some parent ↔ root.Links (node, parent) := by
  have hfound : ∀ {entry : Node × Node},
      (ofRoot root).entries.find? (fun entry => entry.1.path == node.path) = some entry →
        root.Links entry ∧ entry.1.path = node.path := fun hentry =>
    ⟨mem_entries_iff.1 (List.mem_of_find?_eq_some hentry), by simpa using List.find?_some hentry⟩
  constructor
  · intro hparent
    obtain ⟨⟨child, other⟩, hentry, rfl⟩ := Option.map_eq_some_iff.1 hparent
    obtain ⟨hlinks, hpath⟩ := hfound hentry
    have hchild : child ∈ root.descendants :=
      descendants_trans hlinks.1 (mem_descendants_of_mem_nodes hlinks.2 child.mem_descendants_self)
    obtain rfl : child = node := Node.eq_of_path hchild h hpath
    exact hlinks
  · intro hlinks
    have hsome : ((ofRoot root).entries.find? fun entry => entry.1.path == node.path).isSome :=
      List.find?_isSome.2 ⟨(node, parent), mem_entries_iff.2 hlinks, beq_self_eq_true node.path⟩
    obtain ⟨entry, hentry⟩ := Option.isSome_iff_exists.1 hsome
    obtain ⟨hother, hpath⟩ := hfound hentry
    obtain rfl := hother.eq_of_path hlinks hpath
    rw [parent?, hentry]
    rfl

theorem parent?_root (root : Node) : (ofRoot root).parent? root = none := by
  refine Option.eq_none_iff_forall_ne_some.2 fun parent hparent => ?_
  exact not_links_self ((parent?_eq_some_iff root.mem_descendants_self).1 hparent)

/-! ## The loop over a walk -/

def fill : (limit : Nat) → Walk → (stack : List Node) → List (Node × Node)
  | 0, _, _ => []
  | limit + 1, walk, stack =>
      match walk.nextNode with
      | (none, _) => []
      | (some (.enter node), later) =>
          (stack.head?.map fun parent => (node, parent)).toList ++ fill limit later (node :: stack)
      | (some (.leave _), later) => fill limit later stack.tail
      | (some (.token _), later) => fill limit later stack

theorem collect_filter (stack : List Node) (events : List WalkEvent) :
    collect stack (events.filter fun event => !event.isToken) = collect stack events := by
  induction events generalizing stack with
  | nil => rfl
  | cons event events ih =>
      cases event with
      | enter node => exact congrArg ((_ : List (Node × Node)) ++ ·) (ih (node :: stack))
      | leave node => exact ih stack.tail
      | token inner => exact ih stack

theorem fill_eq_collect {limit : Nat} {walk : Walk} (stack : List Node)
    (h : (walk.remaining.filter fun event => !event.isToken).length < limit) :
    fill limit walk stack =
      collect stack (walk.remaining.filter fun event => !event.isToken) := by
  induction limit generalizing walk stack with
  | zero => cases h
  | succ limit ih =>
      have hevent := Walk.nextNode_steps.event walk
      have hahead := Walk.nextNode_steps.ahead walk
      rcases hstep : walk.nextNode with ⟨event, later⟩
      rw [hstep] at hevent hahead
      rw [fill, hstep]
      cases hremaining : walk.remaining.filter fun event => !event.isToken with
      | nil =>
          rw [hremaining] at hevent
          obtain rfl : event = none := hevent
          rfl
      | cons first rest =>
          rw [hremaining] at hevent hahead h
          obtain rfl : event = some first := hevent
          have hrest (stack : List Node) : fill limit later stack = collect stack rest := by
            have hshort : (later.remaining.filter fun event => !event.isToken).length < limit := by
              rw [hahead]
              exact Nat.lt_of_succ_lt_succ h
            rw [ih stack hshort, hahead]
            rfl
          cases first with
          | enter node => exact congrArg ((_ : List (Node × Node)) ++ ·) (hrest (node :: stack))
          | leave node => exact hrest stack.tail
          | token inner => exact hrest stack

theorem fill_ofNode (root : Node) {limit : Nat} (h : root.events.length < limit) :
    fill limit (Walk.ofNode root) [] = (ofRoot root).entries := by
  have hremaining : (Walk.ofNode root).remaining = root.events := by
    simp [Walk.remaining, Walk.ofNode]
  rw [fill_eq_collect [] (Nat.lt_of_le_of_lt (List.length_filter_le _ _) (hremaining ▸ h)),
    hremaining, collect_filter]
  rfl

/-! ## Ancestors -/

/-- The way up from a node, from its parent to a node without one. -/
inductive Line (map : ParentMap) : Node → List Node → Prop
  | top {node : Node} (h : map.parent? node = none) : Line map node []
  | up {node parent : Node} {nodes : List Node} (h : map.parent? node = some parent)
      (hline : Line map parent nodes) : Line map node (parent :: nodes)

namespace Line

variable {map : ParentMap} {nodes : List Node}

theorem climb_eq (h : map.Line node nodes) {limit : Nat} (hle : nodes.length ≤ limit) :
    map.climb limit node = nodes := by
  induction h generalizing limit with
  | top hnone =>
      cases limit with
      | zero => rfl
      | succ limit => rw [climb, hnone]
  | up hparent hline ih =>
      obtain ⟨limit, rfl⟩ : ∃ less, limit = less + 1 := Nat.exists_eq_add_one.2
        (Nat.lt_of_lt_of_le (Nat.succ_pos _) hle)
      rw [climb, hparent]
      exact congrArg _ (ih (Nat.le_of_succ_le_succ hle))

theorem isChain (h : map.Line node nodes) :
    (node :: nodes).IsChain fun inner parent => map.parent? inner = some parent := by
  induction h with
  | top => exact .singleton _
  | up hparent _ ih => exact .cons_cons hparent ih

variable (hnode : node ∈ root.descendants) (h : (ofRoot root).Line node nodes)
include hnode h

theorem length_le : nodes.length ≤ node.path.length := by
  induction h with
  | top => exact Nat.zero_le _
  | up hparent _ ih =>
      have hlinks := (parent?_eq_some_iff hnode).1 hparent
      have hlt := length_path_lt hlinks.2 (mem_descendants_self _)
      exact Nat.lt_of_le_of_lt (ih hlinks.1) hlt

theorem getLast?_eq : (node :: nodes).getLast? = some root := by
  induction h with
  | @top node hnone =>
      by_cases hroot : node = root
      · rw [hroot]
        rfl
      · obtain ⟨parent, hlinks⟩ := exists_links hnode hroot
        cases hnone.symm.trans ((parent?_eq_some_iff hnode).2 hlinks)
  | up hparent _ ih =>
      rw [List.getLast?_cons_cons]
      exact ih ((parent?_eq_some_iff hnode).1 hparent).1

theorem mem_iff : outer ∈ nodes ↔
    outer ∈ root.descendants ∧ node ∈ outer.descendants ∧ outer ≠ node := by
  induction h with
  | @top node hnone =>
      obtain rfl : node = root := by
        have hlast := getLast?_eq hnode (.top hnone)
        simpa using hlast
      simp only [List.not_mem_nil, false_iff]
      rintro ⟨houter, hinner, hne⟩
      exact hne (descendants_antisymm houter hinner)
  | @up node parent nodes hparent _ ih =>
      have hlinks := (parent?_eq_some_iff hnode).1 hparent
      have hbelow : node ∈ parent.descendants :=
        mem_descendants_of_mem_nodes hlinks.2 node.mem_descendants_self
      have hne : parent ≠ node := fun heq =>
        absurd (length_path_lt hlinks.2 node.mem_descendants_self) (by simp [heq])
      rw [List.mem_cons, ih hlinks.1]
      constructor
      · rintro (rfl | ⟨houter, hinner, -⟩)
        · exact ⟨hlinks.1, hbelow, hne⟩
        · refine ⟨houter, descendants_trans hinner hbelow, fun heq => hne ?_⟩
          rw [heq] at hinner
          exact descendants_antisymm hinner hbelow
      · rintro ⟨houter, hinner, hother⟩
        obtain ⟨between, hbetween⟩ := exists_links hinner (Ne.symm hother)
        have hroot : root.Links (node, between) :=
          ⟨descendants_trans houter hbetween.1, hbetween.2⟩
        obtain rfl : between = parent := congrArg Prod.snd (hroot.eq_of_path hlinks rfl)
        by_cases hsame : outer = between
        · exact .inl hsame
        · exact .inr ⟨houter, hbetween.1, hsame⟩

theorem nodup : nodes.Nodup := by
  induction h with
  | top => exact .nil
  | up hparent hline ih =>
      have hlinks := (parent?_eq_some_iff hnode).1 hparent
      refine List.nodup_cons.2 ⟨fun hmem => ?_, ih hlinks.1⟩
      exact ((mem_iff hlinks.1 hline).1 hmem).2.2 rfl

end Line

theorem exists_line (h : node ∈ root.descendants) : ∃ nodes, (ofRoot root).Line node nodes := by
  induction hlength : node.path.length using Nat.strongRecOn generalizing node with
  | ind length ih =>
      cases hparent : (ofRoot root).parent? node with
      | none => exact ⟨[], .top hparent⟩
      | some parent =>
          have hlinks := (parent?_eq_some_iff h).1 hparent
          have hlt := length_path_lt hlinks.2 node.mem_descendants_self
          obtain ⟨nodes, hline⟩ := ih _ (hlength ▸ hlt) hlinks.1 rfl
          exact ⟨parent :: nodes, .up hparent hline⟩

theorem line_ancestors (h : node ∈ root.descendants) :
    (ofRoot root).Line node ((ofRoot root).ancestors node) := by
  obtain ⟨nodes, hline⟩ := exists_line h
  rw [ancestors, hline.climb_eq (hline.length_le h)]
  exact hline

/-- The map of a root gives every other node below it the one node that it is a child of, and the
way up from a node lists the nodes around it, the nearest first, up to the root. -/
theorem ofRoot_inverts (h : node ∈ root.descendants) :
    (ofRoot root).parent? root = none ∧
      (node ≠ root → ∃ parent, (ofRoot root).parent? node = some parent ∧
        parent ∈ root.descendants ∧ node ∈ parent.nodes ∧
          ∀ other ∈ root.descendants, node ∈ other.nodes → other = parent) ∧
      (root.descendants.map Node.path).Nodup ∧
      ((node :: (ofRoot root).ancestors node).IsChain fun inner parent =>
        (ofRoot root).parent? inner = some parent) ∧
      (node :: (ofRoot root).ancestors node).getLast? = some root ∧
      ((ofRoot root).ancestors node).Nodup ∧
      (∀ outer, outer ∈ (ofRoot root).ancestors node ↔
        outer ∈ root.descendants ∧ node ∈ outer.descendants ∧ outer ≠ node) ∧
      (∀ limit, ((ofRoot root).ancestors node).length ≤ limit →
        (ofRoot root).climb limit node = (ofRoot root).ancestors node) ∧
      ∀ limit, root.events.length < limit →
        fill limit (Walk.ofNode root) [] = (ofRoot root).entries := by
  have hline := line_ancestors h
  refine ⟨parent?_root root, fun hne => ?_, root.nodup_map_path, hline.isChain,
    hline.getLast?_eq h, hline.nodup h, fun outer => hline.mem_iff h,
    fun limit hle => hline.climb_eq hle, fun limit hlimit => fill_ofNode root hlimit⟩
  obtain ⟨parent, hlinks⟩ := exists_links h hne
  refine ⟨parent, (parent?_eq_some_iff h).2 hlinks, hlinks.1, hlinks.2, ?_⟩
  intro other hother hnode
  have hsame : root.Links (node, other) := ⟨hother, hnode⟩
  exact congrArg Prod.snd (hsame.eq_of_path hlinks rfl)

def emptyNodes : Node :=
  SourceTree.root ⟨.sourceFile,
    [.branch .error [], .branch .error [], .branch .error [.branch .error [.branch .error []]]], []⟩

def innermost : Node := ⟨[0, 0, 2], .error, [], 0, []⟩

theorem ofRoot_inverts_empty :
    innermost ∈ emptyNodes.descendants ∧
      ((ofRoot emptyNodes).ancestors innermost).map Node.path = [[0, 2], [2], []] ∧
      (innermost :: (ofRoot emptyNodes).ancestors innermost).getLast? = some emptyNodes ∧
      ∀ outer, outer ∈ (ofRoot emptyNodes).ancestors innermost ↔
        outer ∈ emptyNodes.descendants ∧ innermost ∈ outer.descendants ∧ outer ≠ innermost := by
  have hinner : innermost ∈ emptyNodes.descendants := by decide +kernel
  have hall := ofRoot_inverts hinner
  exact ⟨hinner, by decide +kernel, hall.2.2.2.2.1, hall.2.2.2.2.2.2.1⟩

end ParentMap

end TdSyntax
